import CodeSurvey.Proofs.Regex.Skeletons
import CodeSurvey.Proofs.Text.Case

/-!
# What an expression reads

The matcher follows a way that the expression reads whenever it succeeds, and it succeeds whenever
there is a way that the rest of the match accepts. So whether there is a match, and what can stand in its
groups, is found from the relation alone. Most expressions capture nothing and look at nothing, and
are described by the texts that they span.
-/

namespace CodeSurvey

namespace Regex

section Matcher

variable {α : Type} {bound : Nat} {r : Regex} {s t : Cursor} {k : Cursor → Option α} {x : α}

theorem Fails.of_not_reads (h : ∀ t, ¬ Reads r s t) : Fails bound r s := by
  intro α k
  rw [Option.eq_none_iff_forall_ne_some]
  intro x hx
  obtain ⟨t, hread, -⟩ := exists_reads_of_run hx
  exact h t hread

theorem Reads.suffix (h : Reads r s t) : t.rest <:+ s.rest := by
  obtain ⟨xs, hxs, -⟩ := h.exists_append
  exact ⟨xs, hxs.symm⟩

theorem Reads.length_le (h : Reads r s t) : t.rest.length ≤ s.rest.length := h.suffix.length_le

theorem Reads.length_lt (h : Reads r s t) (hlt : s.index < t.index) :
    t.rest.length < s.rest.length := by
  obtain ⟨xs, hxs, hindex⟩ := h.exists_append
  rw [hxs, List.length_append]
  omega

theorem isSome_orElse_left {o : Option α} (h : o.isSome = true) (p : Unit → Option α) :
    (o.orElse p).isSome = true := by
  cases o with
  | none => cases h
  | some x => rfl

theorem isSome_orElse_right {p : Unit → Option α} (h : (p ()).isSome = true) (o : Option α) :
    (o.orElse p).isSome = true := by
  cases o with
  | none => exact h
  | some x => rfl

/-- Rounds are made as long as there are characters for them. -/
theorem isSome_runRounds {greedy : Bool}
    (hbody : ∀ s t k, Reads r s t → s.rest.length ≤ bound → (k t).isSome = true →
      (r.run (α := α) bound s k).isSome = true)
    (h : Reads (.star greedy r) s t) {rounds : Nat} (hrounds : s.rest.length ≤ rounds)
    (hbound : rounds ≤ bound) (hk : (k t).isSome = true) :
    (runRounds (fun t k => r.run bound t k) greedy rounds s k).isSome = true := by
  generalize hstar : Regex.star greedy r = e at h
  induction h generalizing rounds with
  | empty | set | look | seq | left | right | group => cases hstar
  | stop =>
    cases rounds with
    | zero => exact hk
    | succ rounds =>
      simp only [runRounds]
      split
      · exact isSome_orElse_right hk _
      · exact isSome_orElse_left hk _
  | @round _ _ s t u hread hlt hmore ih ihmore =>
    cases hstar
    -- the round has passed over a character, so there are rounds left for the others
    have hless := hread.length_lt hlt
    obtain ⟨rounds, rfl⟩ : ∃ n, rounds = n + 1 :=
      Nat.exists_eq_add_one.mpr (by omega)
    have hagain : (r.run bound s (fun t => if s.index < t.index then
        runRounds (fun t k => r.run bound t k) greedy rounds t k else none)).isSome = true := by
      refine hbody s t _ hread (hrounds.trans hbound) ?_
      rw [if_pos hlt]
      exact ihmore (by omega) (by omega) hk rfl
    simp only [runRounds]
    split
    · exact isSome_orElse_left hagain _
    · exact isSome_orElse_right hagain _

/-- The matcher succeeds where the expression can read its way to a position that the rest of the
match accepts. -/
theorem Reads.isSome_run (h : Reads r s t) (hbound : s.rest.length ≤ bound)
    (hk : (k t).isSome = true) : (r.run bound s k).isSome = true := by
  induction r generalizing s t k with
  | empty =>
    cases h
    exact hk
  | set c =>
    cases h with
    | set hrest hx => rwa [Only.set hrest hx]
  | look a =>
    cases h with
    | look hholds => rwa [Only.look hholds]
  | seq a b iha ihb =>
    cases h with
    | seq ha hb => exact iha ha hbound (ihb hb (ha.length_le.trans hbound) hk)
  | alt a b iha ihb =>
    cases h with
    | left h => exact isSome_orElse_left (iha h hbound hk) _
    | right h => exact isSome_orElse_right (ihb h hbound hk) _
  | star greedy r ih =>
    exact isSome_runRounds (fun s t k hread hlength hk => ih hread hlength hk) h hbound le_rfl hk
  | group n r ih =>
    cases h with
    | group h => exact ih (k := fun t => k (t.capture s n)) h hbound hk

end Matcher

/-! ## Readings of composed expressions -/

section Composed

variable {r : Regex} {rs : List Regex} {s u : Cursor}

theorem reads_look {a : Anchor} : Reads (.look a) s u ↔ a.holds s = true ∧ u = s := by
  constructor
  · rintro ⟨⟩
    exact ⟨‹_›, rfl⟩
  · rintro ⟨h, rfl⟩
    exact .look h

theorem reads_group {n : Nat} : Reads (.group n r) s u ↔ ∃ t, Reads r s t ∧ u = t.capture s n := by
  constructor
  · rintro ⟨⟩
    exact ⟨_, ‹_›, rfl⟩
  · rintro ⟨t, h, rfl⟩
    exact .group h

theorem reads_all_nil : Reads (all []) s u ↔ u = s := by
  constructor
  · rintro ⟨⟩
    rfl
  · rintro rfl
    exact .empty

theorem reads_all_cons :
    Reads (all (r :: rs)) s u ↔ ∃ t, Reads r s t ∧ Reads (all rs) t u := by
  constructor
  · rintro ⟨⟩
    exact ⟨_, ‹_›, ‹_›⟩
  · rintro ⟨t, h, hrest⟩
    exact .seq h hrest

theorem reads_all_append {after : List Regex} :
    Reads (all (rs ++ after)) s u ↔ ∃ t, Reads (all rs) s t ∧ Reads (all after) t u := by
  induction rs generalizing s with
  | nil => simp [reads_all_nil]
  | cons r rs ih =>
    simp only [List.cons_append, reads_all_cons, ih]
    constructor
    · rintro ⟨t, h, t', hrest, hafter⟩
      exact ⟨t', ⟨t, h, hrest⟩, hafter⟩
    · rintro ⟨t', ⟨t, h, hrest⟩, hafter⟩
      exact ⟨t, h, t', hrest, hafter⟩

theorem reads_any : Reads (any rs) s u ↔ ∃ r ∈ rs, Reads r s u := by
  induction rs with
  | nil =>
    constructor
    · intro h
      change Reads (.set .never) s u at h
      cases h with
      | set hrest hx => cases hx
    · rintro ⟨r, hr, -⟩
      cases hr
  | cons r rs ih =>
    cases rs with
    | nil => simp [any]
    | cons r' rs =>
      have hstep : Reads (any (r :: r' :: rs)) s u ↔
          Reads r s u ∨ Reads (any (r' :: rs)) s u := by
        constructor
        · rintro (_ | _ | _ | _ | h | h)
          · exact .inl h
          · exact .inr h
        · rintro (h | h)
          · exact .left h
          · exact .right h
      rw [hstep, ih, List.exists_mem_cons_iff (a := r)]

end Composed

/-! ## Texts that are spanned -/

/-- The expression reads over just the texts with the property, and captures nothing. -/
def Spans (r : Regex) (P : List Char → Prop) : Prop :=
  ∀ s t, Reads r s t ↔ ∃ xs ys, s.rest = xs ++ ys ∧ P xs ∧ t = s.past xs

section Spans

variable {r a b : Regex} {P Q : List Char → Prop} {c : CharClass}

theorem Spans.congr (h : Spans r P) (heq : ∀ xs, P xs ↔ Q xs) : Spans r Q := by
  obtain rfl : P = Q := funext fun xs => propext (heq xs)
  exact h

theorem spans_empty : Spans .empty (· = []) := by
  intro s t
  constructor
  · rintro ⟨⟩
    exact ⟨[], s.rest, rfl, rfl, rfl⟩
  · rintro ⟨xs, ys, -, rfl, rfl⟩
    exact .empty

theorem spans_set (c : CharClass) : Spans (.set c) fun xs => ∃ x, c.has x = true ∧ xs = [x] := by
  intro s t
  constructor
  · rintro ⟨⟩
    next x xs hx hrest => exact ⟨[x], xs, hrest, ⟨x, hx, rfl⟩, rfl⟩
  · rintro ⟨xs, ys, hrest, ⟨x, hx, rfl⟩, rfl⟩
    exact .set hrest hx

theorem Spans.seq (ha : Spans a P) (hb : Spans b Q) :
    Spans (.seq a b) fun xs => ∃ ys zs, xs = ys ++ zs ∧ P ys ∧ Q zs := by
  intro s u
  constructor
  · rintro ⟨⟩
    next t hst htu =>
    obtain ⟨xs, rest, hrest, hP, rfl⟩ := (ha s t).mp hst
    obtain ⟨ys, zs, hrest', hQ, rfl⟩ := (hb _ u).mp htu
    rw [Cursor.rest_past hrest] at hrest'
    refine ⟨xs ++ ys, zs, ?_, ⟨xs, ys, rfl, hP, hQ⟩, (Cursor.past_append s xs ys).symm⟩
    rw [hrest, hrest', List.append_assoc]
  · rintro ⟨xs, ws, hrest, ⟨ys, zs, rfl, hP, hQ⟩, rfl⟩
    rw [List.append_assoc] at hrest
    refine .seq ((ha s _).mpr ⟨ys, zs ++ ws, hrest, hP, rfl⟩) ((hb _ _).mpr ⟨zs, ws, ?_, hQ, ?_⟩)
    · exact Cursor.rest_past hrest
    · exact Cursor.past_append s ys zs

/-- Texts with the properties, one after the other. -/
def InTurn : List (List Char → Prop) → List Char → Prop
  | [], xs => xs = []
  | P :: Ps, xs => ∃ ys zs, xs = ys ++ zs ∧ P ys ∧ InTurn Ps zs

theorem spans_all {rs : List Regex} {Ps : List (List Char → Prop)} (h : List.Forall₂ Spans rs Ps) :
    Spans (all rs) (InTurn Ps) := by
  induction h with
  | nil => exact spans_empty
  | cons hr _ ih => exact hr.seq ih

theorem Spans.alt (ha : Spans a P) (hb : Spans b Q) : Spans (.alt a b) fun xs => P xs ∨ Q xs := by
  intro s t
  constructor
  · rintro (_ | _ | _ | _ | h | h)
    · obtain ⟨xs, ys, hrest, hP, ht⟩ := (ha s t).mp h
      exact ⟨xs, ys, hrest, .inl hP, ht⟩
    · obtain ⟨xs, ys, hrest, hQ, ht⟩ := (hb s t).mp h
      exact ⟨xs, ys, hrest, .inr hQ, ht⟩
  · rintro ⟨xs, ys, hrest, hP | hQ, ht⟩
    · exact .left ((ha s t).mpr ⟨xs, ys, hrest, hP, ht⟩)
    · exact .right ((hb s t).mpr ⟨xs, ys, hrest, hQ, ht⟩)

theorem Spans.opt (h : Spans r P) : Spans (opt r) fun xs => P xs ∨ xs = [] := h.alt spans_empty

theorem Spans.any {ι : Type} {items : List ι} {form : ι → Regex} {P : ι → List Char → Prop}
    (h : ∀ i ∈ items, Spans (form i) (P i)) :
    Spans (any (items.map form)) fun xs => ∃ i ∈ items, P i xs := by
  intro s t
  rw [reads_any]
  constructor
  · rintro ⟨r, hr, hread⟩
    obtain ⟨i, hi, rfl⟩ := List.mem_map.mp hr
    obtain ⟨xs, ys, hrest, hP, ht⟩ := (h i hi s t).mp hread
    exact ⟨xs, ys, hrest, ⟨i, hi, hP⟩, ht⟩
  · rintro ⟨xs, ys, hrest, ⟨i, hi, hP⟩, ht⟩
    exact ⟨form i, List.mem_map_of_mem hi, (h i hi s t).mpr ⟨xs, ys, hrest, hP, ht⟩⟩

theorem Reads.star_set {greedy : Bool} {s : Cursor} {xs ys : List Char} (hrest : s.rest = xs ++ ys)
    (hxs : ∀ x ∈ xs, c.has x = true) : Reads (.star greedy (.set c)) s (s.past xs) := by
  induction xs generalizing s with
  | nil => exact .stop
  | cons x xs ih =>
    obtain ⟨hx, hxs⟩ := List.forall_mem_cons.mp hxs
    exact .round (.set hrest hx) (by simp) (ih (Cursor.rest_past hrest) hxs)

/-- Characters of a class, any number of them. -/
theorem spans_many (c : CharClass) : Spans (many (.set c)) fun xs => ∀ x ∈ xs, c.has x = true := by
  intro s t
  constructor
  · intro h
    generalize hstar : many (.set c) = e at h
    induction h with
    | stop => exact ⟨[], _, rfl, by simp, rfl⟩
    | round h hlt hmore ih ihmore =>
      cases hstar
      obtain ⟨xs, ys, hrest, ⟨x, hx, rfl⟩, rfl⟩ := (spans_set c _ _).mp h
      obtain ⟨zs, ws, hrest', hzs, rfl⟩ := ihmore rfl
      rw [Cursor.rest_past hrest] at hrest'
      exact ⟨x :: zs, ws, by rw [hrest, hrest']; rfl, List.forall_mem_cons.mpr ⟨hx, hzs⟩, rfl⟩
    | empty | set | look | seq | left | right | group => cases hstar
  · rintro ⟨xs, ys, hrest, hxs, rfl⟩
    exact Reads.star_set hrest hxs

theorem spans_atLeast (n : Nat) (c : CharClass) :
    Spans (atLeast n (.set c)) fun xs => n ≤ xs.length ∧ ∀ x ∈ xs, c.has x = true := by
  induction n with
  | zero => exact (spans_many c).congr fun xs => by simp
  | succ n ih =>
    refine Spans.congr ((spans_set c).seq ih) fun xs => ?_
    constructor
    · rintro ⟨ys, zs, rfl, ⟨x, hx, rfl⟩, hlength, hzs⟩
      exact ⟨Nat.succ_le_succ hlength, List.forall_mem_cons.mpr ⟨hx, hzs⟩⟩
    · rintro ⟨hlength, hxs⟩
      cases xs with
      | nil => cases hlength
      | cons x xs =>
        obtain ⟨hx, hxs⟩ := List.forall_mem_cons.mp hxs
        exact ⟨[x], xs, rfl, ⟨x, hx, rfl⟩, Nat.le_of_succ_le_succ hlength, hxs⟩

/-! ## Words -/

/-- One class after the other. -/
theorem spans_classes {ι : Type} (form : ι → CharClass) (items : List ι) :
    Spans (all (items.map fun i => .set (form i)))
      (List.Forall₂ (fun i x => (form i).has x = true) items) := by
  induction items with
  | nil => exact spans_empty.congr fun xs => List.forall₂_nil_left_iff.symm
  | cons i items ih =>
    refine Spans.congr ((spans_set (form i)).seq ih) fun xs => ?_
    rw [List.forall₂_cons_left_iff]
    constructor
    · rintro ⟨ys, zs, rfl, ⟨x, hx, rfl⟩, hzs⟩
      exact ⟨x, zs, hx, hzs, rfl⟩
    · rintro ⟨x, zs, hx, hzs, rfl⟩
      exact ⟨[x], zs, rfl, ⟨x, hx, rfl⟩, hzs⟩

theorem spans_lit (w : String) : Spans (lit w) (· = w.toList) := by
  refine (spans_classes CharClass.one w.toList).congr fun xs => ?_
  simp only [CharClass.has, beq_iff_eq]
  rw [List.forall₂_eq_eq_eq, eq_comm]

/-- The text is the word up to the case of letters. -/
def Spells (word : String) (text : List Char) : Prop := text.map Text.foldCase = word.toList

instance (word : String) (text : List Char) : Decidable (Spells word text) :=
  inferInstanceAs (Decidable (_ = _))

theorem Spells.map_foldCase {word : String} {text : List Char} (h : Spells word text) :
    text.map Text.foldCase = word.toList := h

theorem spells_append {u v : String} {xs : List Char} :
    Spells (u ++ v) xs ↔ ∃ ys zs, xs = ys ++ zs ∧ Spells u ys ∧ Spells v zs := by
  rw [Spells, String.toList_append, List.map_eq_append_iff]
  rfl

/-- A word of one character that goes with no other is spelled in one way. -/
theorem spells_singleton {w : String} {c : Char} (hw : w.toList = [c])
    (h : Text.caseVariants c = [c]) {xs : List Char} : Spells w xs ↔ xs = [c] := by
  have hfold (x : Char) : Text.foldCase x = c ↔ x = c := by
    constructor
    · intro hx
      have hmem := Text.mem_caseVariants_foldCase x
      rw [hx, h] at hmem
      exact List.mem_singleton.mp hmem
    · rintro rfl
      rw [Text.foldCase, h, List.headD_cons]
  rw [Spells, hw, List.map_eq_singleton_iff]
  constructor
  · rintro ⟨x, rfl, hx⟩
    rw [(hfold x).mp hx]
  · rintro rfl
    exact ⟨c, rfl, (hfold c).mpr rfl⟩

theorem spans_litAnyCase {w word : String} (hw : w.toList.map Text.foldCase = word.toList) :
    Spans (litAnyCase w) (Spells word) := by
  refine (spans_classes (fun c => .anyCase (.one c)) w.toList).congr fun xs => ?_
  rw [Spells, ← hw]
  generalize w.toList = cs
  induction cs generalizing xs with
  | nil => simp
  | cons c cs ih =>
    have hhas (x : Char) :
        (CharClass.anyCase (.one c)).has x = true ↔ Text.foldCase x = Text.foldCase c := by
      rw [← Text.mem_caseVariants_iff]
      simp [CharClass.has]
    cases xs with
    | nil => simp
    | cons x xs =>
      rw [List.forall₂_cons, ih, hhas, List.map_cons, List.map_cons, List.cons_eq_cons]

/-! ## What is left and what is captured -/

variable {n : Nat} {s u : Cursor} {xs ys : List Char}

theorem Spans.of_reads (h : Spans r P) (hread : Reads r s u) :
    ∃ xs, P xs ∧ s.rest = xs ++ u.rest ∧ u.groups = s.groups := by
  obtain ⟨xs, ys, hrest, hxs, rfl⟩ := (h s u).mp hread
  exact ⟨xs, hxs, by rw [hrest, Cursor.rest_past hrest], Cursor.groups_past s xs⟩

theorem Spans.of_reads_group (h : Spans r P) (hread : Reads (.group n r) s u) :
    ∃ xs, P xs ∧ s.rest = xs ++ u.rest ∧ u.groups = (n, ⟨s.index, xs⟩) :: s.groups := by
  obtain ⟨t, ht, rfl⟩ := reads_group.mp hread
  obtain ⟨xs, ys, hrest, hxs, rfl⟩ := (h s t).mp ht
  rw [Cursor.capture_past hrest]
  exact ⟨xs, hxs, by rw [hrest, Cursor.rest_past hrest], rfl⟩

theorem Spans.exists_reads (h : Spans r P) (hxs : P xs) (hrest : s.rest = xs ++ ys) :
    ∃ u, Reads r s u ∧ u.rest = ys :=
  ⟨s.past xs, (h s _).mpr ⟨xs, ys, hrest, hxs, rfl⟩, Cursor.rest_past hrest⟩

theorem Spans.exists_reads_group (h : Spans r P) (n : Nat) (hxs : P xs)
    (hrest : s.rest = xs ++ ys) : ∃ u, Reads (.group n r) s u ∧ u.rest = ys :=
  ⟨(s.past xs).capture s n, .group ((h s _).mpr ⟨xs, ys, hrest, hxs, rfl⟩), Cursor.rest_past hrest⟩

end Spans

/-! ## Matches and what they capture -/

section Matches

variable {bound : Nat} {r : Regex} {s t : Cursor} {text : String} {m : Match}

/-- Matches are found behind some characters. -/
theorem exists_place_of_mem_matchesFrom {fuel : Nat} {last : Option Nat}
    (h : m ∈ r.matchesFrom bound fuel last s) :
    ∃ zs ys t, s.rest = zs ++ ys ∧ r.matchAt bound (s.past zs) = some (m, t) := by
  induction fuel generalizing last s with
  | zero => cases h
  | succ fuel ih =>
    rw [matchesFrom] at h
    split at h
    · cases h
    · next m' t hsearch =>
      obtain ⟨zs, ys, hrest, hmatch⟩ := exists_place_of_search hsearch
      split at h
      -- an empty match where the last one ended is passed over
      · split at h
        · cases h
        · next s' hnext =>
          cases hchars : s.rest with
          | nil => simp [Cursor.next?, hchars] at hnext
          | cons c cs =>
            obtain rfl : s.past [c] = s' := by
              simpa [Cursor.next?, hchars, Cursor.past] using hnext
            obtain ⟨ws, us, u, hrest', hu⟩ := ih h
            rw [Cursor.rest_past hchars] at hrest'
            exact ⟨c :: ws, us, u, by rw [hrest']; rfl, hu⟩
      · rcases List.mem_cons.mp h with rfl | hlater
        · exact ⟨zs, ys, t, hrest, hmatch⟩
        · obtain ⟨xs, ws, groups, hrest', rfl, -⟩ := exists_of_matchAt hmatch
          obtain ⟨us, vs, u, hrest'', hu⟩ := ih hlater
          rw [Cursor.rest_withGroups, Cursor.rest_past hrest'] at hrest''
          rw [Cursor.rest_past hrest] at hrest'
          refine ⟨zs ++ (xs ++ us), vs, u, ?_, ?_⟩
          · rw [hrest, hrest', hrest'', List.append_assoc, List.append_assoc]
          · rw [Cursor.past_append, Cursor.past_append]
            simpa using hu

theorem suffix_rest_past {zs ys : List Char} (hrest : s.rest = zs ++ ys) :
    (s.past zs).rest <:+ s.rest :=
  ⟨zs, hrest.symm ▸ congrArg (zs ++ ·) (Cursor.rest_past hrest)⟩

/-- Every match is a reading that starts somewhere in the text. -/
theorem exists_reads_of_mem_findAll (h : m ∈ r.findAll text) :
    ∃ before cs index t, cs <:+ text.toList ∧ Reads r ⟨before, cs, index, []⟩ t ∧
      m.groups = t.groups := by
  obtain ⟨zs, ys, t, hrest, hmatch⟩ := exists_place_of_mem_matchesFrom h
  exact ⟨_, _, _, t, suffix_rest_past hrest, reads_of_matchAt hmatch⟩

/-- Where the expression can read from the start of a text on, a match starts there. -/
theorem exists_mem_findAll_of_reads (h : Reads r (Cursor.ofChars text.toList) t) :
    ∃ m ∈ r.findAll text, ∃ u, Reads r (Cursor.ofChars text.toList) u ∧ m.groups = u.groups := by
  have hsome : (r.matchAt text.length (Cursor.ofChars text.toList)).isSome = true :=
    h.isSome_run (String.length_toList).le rfl
  obtain ⟨⟨m, u⟩, hmatch⟩ := Option.isSome_iff_exists.mp hsome
  obtain ⟨hread, hgroups⟩ := reads_of_matchAt hmatch
  refine ⟨m, ?_, u, hread, hgroups⟩
  rw [findAll, matchesFrom, search_of_matchAt hmatch]
  simp

/-- What is captured on the way stands in the text. -/
theorem Reads.infix_of_mem_groups (h : Reads r s t) {g : Nat × Capture} (hg : g ∈ t.groups) :
    g ∈ s.groups ∨ g.2.chars <:+: s.rest := by
  induction h with
  | empty => exact .inl hg
  | @set c s x xs hrest hx => exact .inl (Cursor.groups_past s [x] ▸ hg)
  | look h => exact .inl hg
  | seq ha hb iha ihb =>
    rcases ihb hg with hmem | hlater
    · exact iha hmem
    · exact .inr (hlater.trans ha.suffix.isInfix)
  | left _ ih | right _ ih => exact ih hg
  | stop => exact .inl hg
  | round h hlt hmore ih ihmore =>
    rcases ihmore hg with hmem | hlater
    · exact ih hmem
    · exact .inr (hlater.trans h.suffix.isInfix)
  | group h ih =>
    rcases List.mem_cons.mp hg with rfl | hmem
    · exact .inr (List.take_prefix _ _).isInfix
    · exact ih hmem

/-- The numbers of the groups in an expression. -/
def groupNumbers : Regex → List Nat
  | empty => []
  | set _ => []
  | look _ => []
  | seq a b => a.groupNumbers ++ b.groupNumbers
  | alt a b => a.groupNumbers ++ b.groupNumbers
  | star _ r => r.groupNumbers
  | group n r => n :: r.groupNumbers

/-- Reading leaves the groups as they are that do not stand in the expression. -/
theorem Reads.lookup_groups {n : Nat} (h : Reads r s t) (hn : n ∉ r.groupNumbers) :
    t.groups.lookup n = s.groups.lookup n := by
  induction h with
  | empty => rfl
  | @set c s x xs hrest hx => rw [Cursor.groups_past]
  | look h => rfl
  | seq ha hb iha ihb =>
    rw [groupNumbers, List.mem_append, not_or] at hn
    rw [ihb hn.2, iha hn.1]
  | left h ih =>
    rw [groupNumbers, List.mem_append, not_or] at hn
    exact ih hn.1
  | right h ih =>
    rw [groupNumbers, List.mem_append, not_or] at hn
    exact ih hn.2
  | stop => rfl
  | round h hlt hmore ih ihmore => rw [ihmore hn, ih hn]
  | group h ih =>
    rw [groupNumbers, List.mem_cons, not_or] at hn
    rw [Cursor.capture, List.lookup_cons, beq_eq_false_iff_ne.mpr hn.1]
    exact ih hn.2

/-- The match and what it captures stand in the text. -/
theorem within_of_matchAt (h : r.matchAt bound s = some (m, t)) (hrest : s.rest <:+ text.toList) :
    Text.Occurs m.text text ∧ ∀ n, Text.Occurs (m.group n) text := by
  obtain ⟨hread, hgroups⟩ := reads_of_matchAt h
  constructor
  · obtain ⟨u, -, hu⟩ := exists_reads_of_run h
    cases hu
    rw [Text.Occurs, Match.text, String.toList_ofList]
    exact (List.take_prefix _ _).isInfix.trans hrest.isInfix
  · intro n
    rw [Text.Occurs, Match.group, Match.group?]
    cases hlookup : m.groups.lookup n with
    | none => exact List.nil_infix
    | some c =>
      obtain ⟨newer, older, hsplit, -⟩ := List.lookup_eq_some_iff.mp hlookup
      have hmem : (n, c) ∈ t.groups := by simp [← hgroups, hsplit]
      rcases hread.infix_of_mem_groups hmem with hnone | hinside
      · cases hnone
      · rw [Option.map_some, Option.getD_some, String.toList_ofList]
        exact hinside.trans hrest.isInfix

theorem within_of_mem_findAll (h : m ∈ r.findAll text) :
    Text.Occurs m.text text ∧ ∀ n, Text.Occurs (m.group n) text := by
  obtain ⟨zs, ys, t, hrest, hmatch⟩ := exists_place_of_mem_matchesFrom h
  exact within_of_matchAt hmatch (suffix_rest_past hrest)

theorem within_of_find? (h : r.find? text = some m) :
    Text.Occurs m.text text ∧ ∀ n, Text.Occurs (m.group n) text := by
  obtain ⟨⟨m, t⟩, hsearch, rfl⟩ := Option.map_eq_some_iff.mp h
  obtain ⟨zs, ys, hrest, hmatch⟩ := exists_place_of_search hsearch
  exact within_of_matchAt hmatch (suffix_rest_past hrest)

end Matches

/-! ## Matches with a free end -/

theorem run_all_append {α : Type} {bound : Nat} {s : Cursor} {k : Cursor → Option α}
    (before after : List Regex) :
    (all (before ++ after)).run bound s k =
      (all before).run bound s fun t => (all after).run bound t k := by
  induction before generalizing s with
  | nil => rfl
  | cons r before ih =>
    change r.run bound s (fun t => (all (before ++ after)).run bound t k) = _
    simp only [ih]
    rfl

/-- A match whose preferred way through the first expressions is known, and which can go on in some
way through the others: its groups are those of some reading of the others. -/
theorem Takes.exists_reads_of_find? {text : String} {before after : List Regex} {t u : Cursor}
    (h : Takes text.length (all before) (Cursor.ofChars text.toList) t)
    (hlength : t.rest.length ≤ text.length) (hafter : Reads (all after) t u) :
    ∃ m v, (all (start :: (before ++ after))).find? text = some m ∧ Reads (all after) t v ∧
      m.groups = v.groups := by
  let final (t : Cursor) : Option (Match × Cursor) :=
    some (⟨0, t.index, text.toList.take t.index, t.groups⟩, t)
  have hsome : ((all after).run text.length t final).isSome = true := hafter.isSome_run hlength rfl
  obtain ⟨found, hfound⟩ := Option.isSome_iff_exists.mp hsome
  obtain ⟨v, hread, hv⟩ := exists_reads_of_run hfound
  cases hv
  have htaken := h _ (fun t => (all after).run text.length t final) _ hfound
  refine ⟨⟨0, v.index, text.toList.take v.index, v.groups⟩, v, ?_, hread, rfl⟩
  change (Regex.seq start (all (before ++ after))).find? text = _
  rw [find?_start, run_all_append]
  exact congrArg (Option.map (·.1)) htaken

/-- What the first expressions have captured is left by the others. -/
theorem Takes.exists_find? {text : String} {before after : List Regex} {t u : Cursor}
    (h : Takes text.length (all before) (Cursor.ofChars text.toList) t)
    (hlength : t.rest.length ≤ text.length) (hafter : Reads (all after) t u) :
    ∃ m, (all (start :: (before ++ after))).find? text = some m ∧
      ∀ n, n ∉ (all after).groupNumbers → m.groups.lookup n = t.groups.lookup n := by
  obtain ⟨m, v, hfind, hread, hgroups⟩ := h.exists_reads_of_find? hlength hafter
  exact ⟨m, hfind, fun n hn => hgroups ▸ hread.lookup_groups hn⟩

end Regex

end CodeSurvey
