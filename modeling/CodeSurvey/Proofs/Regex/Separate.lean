import CodeSurvey.Proofs.Regex.Readings

/-!
# Matches that stand apart

A search stops at the first position where the expression matches, and the next search starts behind
the match. So a match is found unless one that starts before it reaches over its start. If no match
begins inside of another one then nothing is passed over: the matches found in a text are those at
all positions where the expression matches. That a match does not reach somewhere is often seen from
its characters, which are those that the classes of the expression allow.
-/

namespace CodeSurvey

theorem CharClass.has_anyOf {classes : List CharClass} {x : Char} :
    (anyOf classes).has x = true ↔ ∃ c ∈ classes, c.has x = true := by
  induction classes with
  | nil => simp [anyOf, has]
  | cons c classes ih =>
    rw [List.exists_mem_cons_iff, ← ih, ← Bool.or_eq_true]
    rfl

namespace Cursor

/-- Before a position in a text stands the last of the characters passed over. -/
theorem before_ofChars_past (cs xs : List Char) : ((ofChars cs).past xs).before = xs.getLast? := by
  obtain rfl | ⟨front, last, rfl⟩ := List.eq_nil_or_concat' xs
  · rfl
  · rw [before_past_concat, List.getLast?_concat]

end Cursor

namespace Regex

variable {bound : Nat} {r : Regex} {s t : Cursor} {m : Match} {xs ys zs : List Char}

/-- The match that an expression takes at once. -/
theorem Takes.matchAt (h : Takes bound r (s.withGroups []) ((s.withGroups []).past xs))
    (hrest : s.rest = xs ++ ys) :
    r.matchAt bound s =
      some (⟨s.index, s.index + xs.length, xs, []⟩, (s.past xs).withGroups []) := by
  have hfound := h _ (fun t =>
    some (Match.mk s.index t.index (s.rest.take (t.index - s.index)) t.groups, t)) _ rfl
  rw [Cursor.withGroups_past] at hfound
  refine hfound.trans ?_
  simp [hrest, Cursor.withGroups]

/-- One expression after the other, each over its own part of the text. -/
theorem Takes.all_cons {rs : List Regex} (hr : Takes bound r s (s.past xs))
    (hrs : Takes bound (all rs) (s.past xs) ((s.past xs).past ys)) :
    Takes bound (all (r :: rs)) s (s.past (xs ++ ys)) := by
  rw [Cursor.past_append]
  exact hr.seq hrs

theorem Takes.all_append {before after : List Regex} {u : Cursor}
    (hbefore : Takes bound (all before) s t) (hafter : Takes bound (all after) t u) :
    Takes bound (all (before ++ after)) s u := by
  intro α k x hx
  rw [run_all_append]
  exact hbefore _ _ _ (hafter _ _ _ hx)

/-- A last expression. -/
theorem Takes.all_singleton (hr : Takes bound r s t) : Takes bound (all [r]) s t :=
  hr.seq (Takes.empty t)

/-! ## Edges of words -/

/-- A range of characters that are all parts of words. -/
theorem isWord_of_range {low high c : Char}
    (hall : ∀ n ≤ high.toNat, low.toNat ≤ n → Text.isWord (Char.ofNat n) = true)
    (h : (CharClass.range low high).has c = true) : Text.isWord c = true := by
  simp only [CharClass.has, Bool.and_eq_true, decide_eq_true_eq] at h
  have hc := hall c.toNat h.2 h.1
  rwa [Char.ofNat_toNat] at hc

theorem isWord_of_digit {c : Char} (h : CharClass.digit.has c = true) : Text.isWord c = true :=
  isWord_of_range (by decide) h

theorem isWord_of_nameStart {c : Char} (h : CharClass.nameStart.has c = true) :
    Text.isWord c = true := by
  simp only [CharClass.nameStart, CharClass.letter, CharClass.has_anyOf, List.mem_cons,
    List.not_mem_nil, or_false, exists_eq_or_imp, exists_eq_left] at h
  rcases h with (h | h) | h
  · exact isWord_of_range (by decide) h
  · exact isWord_of_range (by decide) h
  · obtain rfl : '_' = c := by simpa [CharClass.has] using h
    decide

/-- Between characters that are no part of a word and a word there is an edge. -/
theorem holds_wordEdge_iff {c : Char} (hrest : s.rest = c :: ys) (hc : Text.isWord c = true) :
    Anchor.wordEdge.holds s = true ↔ ∀ x ∈ s.before, Text.isWord x = false := by
  cases hbefore : s.before with
  | none | some => simp [Anchor.holds, hbefore, hrest, hc]

/-- Behind a word there is an edge unless the word goes on. -/
theorem holds_wordEdge_behind_iff {x : Char} (hbefore : s.before = some x)
    (hx : Text.isWord x = true) :
    Anchor.wordEdge.holds s = true ↔ ∀ y ∈ s.rest.head?, Text.isWord y = false := by
  cases hhead : s.rest.head? with
  | none | some => simp [Anchor.holds, hbefore, hhead, hx]

/-! ## Characters and lengths of matches -/

/-- Every character that a class of the expression allows has the property. -/
def Over (p : Char → Prop) : Regex → Prop
  | empty => True
  | set c => ∀ x, c.has x = true → p x
  | look _ => True
  | seq a b => a.Over p ∧ b.Over p
  | alt a b => a.Over p ∧ b.Over p
  | star _ r => r.Over p
  | group _ r => r.Over p

section Over

variable {p : Char → Prop}

@[simp] theorem over_all {rs : List Regex} : (all rs).Over p ↔ ∀ r ∈ rs, r.Over p := by
  induction rs with
  | nil => simp [all, Over]
  | cons r rs ih =>
    rw [List.forall_mem_cons, ← ih]
    rfl

@[simp] theorem over_any {rs : List Regex} : (any rs).Over p ↔ ∀ r ∈ rs, r.Over p := by
  induction rs with
  | nil => simp [any, Over, CharClass.has]
  | cons r rs ih =>
    cases rs with
    | nil => simp [any]
    | cons r' rs =>
      rw [List.forall_mem_cons, ← ih]
      rfl

@[simp] theorem over_anyOf {classes : List CharClass} :
    (set (.anyOf classes)).Over p ↔ ∀ c ∈ classes, (set c).Over p := by
  simp only [Over, CharClass.has_anyOf]
  exact ⟨fun h c hc x hx => h x ⟨c, hc, hx⟩, fun h x ⟨c, hc, hx⟩ => h c hc x hx⟩

@[simp] theorem over_many : (many r).Over p ↔ r.Over p := Iff.rfl

@[simp] theorem over_plus : (plus r).Over p ↔ r.Over p := and_self_iff

@[simp] theorem over_lit {w : String} : (lit w).Over p ↔ ∀ c ∈ w.toList, p c := by
  simp [lit, Over, CharClass.has]

@[simp] theorem over_oneOf {ws : List String} :
    (oneOf ws).Over p ↔ ∀ w ∈ ws, ∀ c ∈ w.toList, p c := by
  simp [oneOf]

/-- What is read has the property of the characters that the expression allows. -/
theorem Reads.forall_of_over (h : Reads r s t) (hr : r.Over p) :
    ∀ xs, s.rest = xs ++ t.rest → ∀ x ∈ xs, p x := by
  have hjoin {s t u : Cursor} {xs : List Char} (hst : ∃ ys, s.rest = ys ++ t.rest)
      (hs : ∀ ys, s.rest = ys ++ t.rest → ∀ x ∈ ys, p x)
      (htu : ∃ zs, t.rest = zs ++ u.rest) (ht : ∀ zs, t.rest = zs ++ u.rest → ∀ x ∈ zs, p x)
      (hxs : s.rest = xs ++ u.rest) : ∀ x ∈ xs, p x := by
    obtain ⟨ys, hys⟩ := hst
    obtain ⟨zs, hzs⟩ := htu
    obtain rfl : ys ++ zs = xs := by
      apply (List.append_left_inj u.rest).mp
      rw [List.append_assoc, ← hzs, ← hys, hxs]
    intro x hx
    rcases List.mem_append.mp hx with hx | hx
    · exact hs ys hys x hx
    · exact ht zs hzs x hx
  have hends {r : Regex} {s t : Cursor} (h : Reads r s t) : ∃ xs, s.rest = xs ++ t.rest := by
    obtain ⟨xs, hxs, -⟩ := h.exists_append
    exact ⟨xs, hxs⟩
  have hnone {s : Cursor} : ∀ xs, s.rest = xs ++ s.rest → ∀ x ∈ xs, p x := by
    intro xs hxs x hx
    rw [List.self_eq_append_left.mp hxs] at hx
    cases hx
  induction h with
  | empty => exact hnone
  | @set c s x xs hrest hx =>
    intro ys hys y hy
    have hnext : (s.past [x]).rest = xs := Cursor.rest_past hrest
    obtain rfl : ys = [x] := by
      apply (List.append_left_inj xs).mp
      rw [← hnext, ← hys, hnext, hrest]
      rfl
    rw [List.mem_singleton.mp hy]
    exact hr x hx
  | look h => exact hnone
  | seq ha hb iha ihb =>
    intro xs hxs
    exact hjoin (hends ha) (iha hr.1) (hends hb) (ihb hr.2) hxs
  | left h ih => exact ih hr.1
  | right h ih => exact ih hr.2
  | stop => exact hnone
  | round h hlt hmore ih ihmore =>
    intro xs hxs
    exact hjoin (hends h) (ih hr) (hends hmore) (ihmore hr) hxs
  | group h ih => exact ih hr

theorem forall_of_matchAt (h : r.matchAt bound s = some (m, t)) (hr : r.Over p) :
    ∀ x ∈ m.chars, p x := by
  obtain ⟨hread, -⟩ := reads_of_matchAt h
  obtain ⟨xs, ys, groups, hrest, rfl, rfl⟩ := exists_of_matchAt h
  refine hread.forall_of_over hr xs ?_
  rw [Cursor.rest_withGroups, Cursor.rest_past hrest]
  exact hrest

end Over

/-- The number of characters that every match has at least. -/
def leastLength : Regex → Nat
  | empty => 0
  | set _ => 1
  | look _ => 0
  | seq a b => a.leastLength + b.leastLength
  | alt a b => min a.leastLength b.leastLength
  | star _ _ => 0
  | group _ r => r.leastLength

theorem Reads.leastLength_le (h : Reads r s t) : s.index + r.leastLength ≤ t.index := by
  induction h with
  | empty => exact le_rfl
  | set hrest hx => simp [leastLength]
  | look h => exact le_rfl
  | seq | left | right =>
    rw [leastLength]
    omega
  | stop => exact le_rfl
  | round h hlt hmore ih ihmore =>
    rw [leastLength] at ihmore ⊢
    omega
  | group h ih => exact ih

/-- An expression that takes a character on each way has no empty match. -/
theorem advances_of_leastLength (h : 0 < r.leastLength) : Advances bound r := by
  intro s m t hsearch
  obtain ⟨zs, ws, -, hmatch⟩ := exists_place_of_search hsearch
  have hlength := (reads_of_matchAt hmatch).1.leastLength_le
  obtain ⟨xs, ys, groups, hrest, rfl, rfl⟩ := exists_of_matchAt hmatch
  exact Nat.lt_of_lt_of_le (Nat.lt_add_of_pos_right h) (by simpa using hlength)

/-- A search finds a match no later than at a position where there is one. -/
theorem exists_search_of_matchAt (hrest : s.rest = zs ++ ys)
    (h : r.matchAt bound (s.past zs) = some (m, t)) :
    ∃ ws us m' t', zs = ws ++ us ∧ r.matchAt bound (s.past ws) = some (m', t') ∧
      r.search bound s = some (m', t') := by
  induction zs generalizing s with
  | nil => exact ⟨[], [], m, t, rfl, h, search_of_matchAt h⟩
  | cons z zs ih =>
    cases hfirst : r.matchAt bound s with
    | some found => exact ⟨[], z :: zs, _, _, rfl, hfirst, search_of_matchAt hfirst⟩
    | none =>
      have hnext : (s.past [z]).rest = zs ++ ys := Cursor.rest_past hrest
      obtain ⟨ws, us, m', t', rfl, hmatch, hsearch⟩ := ih hnext h
      refine ⟨z :: ws, us, m', t', rfl, hmatch, ?_⟩
      rw [search_of_rest hrest, hfirst]
      exact hsearch

/-! ## All positions -/

/-- A match at some position is found, if no match that starts before it reaches over its start. -/
theorem mem_matchesFrom (hadvances : Advances bound r) {fuel : Nat} {last : Option Nat}
    (hrest : s.rest = zs ++ ys) (hfuel : zs.length < fuel)
    (h : r.matchAt bound (s.past zs) = some (m, t))
    (hbefore : ∀ ws us m' t', zs = ws ++ us → us ≠ [] →
      r.matchAt bound (s.past ws) = some (m', t') → m'.stop ≤ s.index + zs.length) :
    m ∈ r.matchesFrom bound fuel last s := by
  induction fuel generalizing s zs last with
  | zero => cases hfuel
  | succ fuel ih =>
    obtain ⟨ws, us, m', t', rfl, hfirst, hsearch⟩ := exists_search_of_matchAt hrest h
    rw [List.append_assoc] at hrest
    rw [matchesFrom_cons hadvances hsearch]
    cases us with
    | nil =>
      rw [List.append_nil, hfirst] at h
      obtain ⟨rfl, rfl⟩ : m' = m ∧ t' = t := by simpa using h
      exact List.mem_cons_self
    | cons u us =>
      have hplace : (s.past ws).rest = u :: us ++ ys := Cursor.rest_past hrest
      have hstop := hbefore ws (u :: us) m' t' rfl (List.cons_ne_nil u us) hfirst
      have hpositive := hadvances s m' t' hsearch
      obtain ⟨xs, zs, groups, hread, rfl, rfl⟩ := exists_of_matchAt hfirst
      simp only [Cursor.index_past, List.length_append, List.length_cons]
        at hstop hpositive hfuel
      -- the first match ends at the start of the other one or before it
      obtain ⟨vs, hvs⟩ : xs <+: u :: us := by
        refine List.prefix_of_prefix_length_le ⟨zs, hread.symm⟩ ⟨ys, hplace.symm⟩ ?_
        rw [List.length_cons]
        omega
      have hlengths : xs.length + vs.length = us.length + 1 := by
        rw [← List.length_append, hvs, List.length_cons]
      rw [← hvs, List.append_assoc] at hplace
      have hnext : (((s.past ws).past xs).withGroups groups).rest = vs ++ ys :=
        Cursor.rest_past hplace
      have hpast (us : List Char) : ((((s.past ws).past xs).withGroups groups).past us) =
          (s.past (ws ++ (xs ++ us))).withGroups groups := by
        rw [Cursor.withGroups_past, Cursor.past_append, Cursor.past_append]
      refine List.mem_cons_of_mem _ (ih hnext (by omega) ?_ ?_)
      · rw [hpast, matchAt_withGroups, hvs, h]
      · rintro ps qs m'' t'' rfl hne hmatch
        rw [hpast, matchAt_withGroups] at hmatch
        have hle := hbefore (ws ++ (xs ++ ps)) qs m'' t'' (by simp [← hvs]) hne hmatch
        simp only [Cursor.index_withGroups, Cursor.index_past, List.length_append,
          List.length_cons] at hle hlengths ⊢
        omega

/-- A match at some position of a text is found, if no match that starts before it reaches over its
start. -/
theorem mem_findAll {text : String} (hadvances : Advances text.length r)
    (hrest : text.toList = zs ++ ys)
    (h : r.matchAt text.length ((Cursor.ofChars text.toList).past zs) = some (m, t))
    (hbefore : ∀ ws us m' t', zs = ws ++ us → us ≠ [] →
      r.matchAt text.length ((Cursor.ofChars text.toList).past ws) = some (m', t') →
        m'.stop ≤ zs.length) :
    m ∈ r.findAll text := by
  have hlength : zs.length + ys.length = text.length := by
    rw [← List.length_append, ← hrest, String.length_toList]
  refine mem_matchesFrom hadvances hrest (by omega) h fun ws us m' t' hzs hne hmatch => ?_
  exact (hbefore ws us m' t' hzs hne hmatch).trans (Nat.le_add_left _ _)

/-- A match is found if it starts behind a character that does not stand in any match: one that
starts before it would have to run over this character. -/
theorem mem_findAll_of_over {text : String} {p : Char → Prop} (hadvances : Advances text.length r)
    (hr : r.Over p) (hrest : text.toList = zs ++ ys) (hlast : ∀ c ∈ zs.getLast?, ¬ p c)
    (h : r.matchAt text.length ((Cursor.ofChars text.toList).past zs) = some (m, t)) :
    m ∈ r.findAll text := by
  refine mem_findAll hadvances hrest h ?_
  rintro ws us m' t' rfl hne hmatch
  have hchars := forall_of_matchAt hmatch hr
  obtain ⟨xs, vs, groups, hplace, -, rfl⟩ := exists_of_matchAt hmatch
  obtain ⟨front, last, rfl⟩ : ∃ front last, us = front ++ [last] :=
    (List.eq_nil_or_concat' us).resolve_left hne
  by_contra hover
  have hindex : ((Cursor.ofChars text.toList).past ws).index = ws.length :=
    (Cursor.index_past _ ws).trans (Nat.zero_add _)
  have hlt : (front ++ [last]).length < xs.length := by
    dsimp only at hover
    simp only [hindex, List.length_append] at hover ⊢
    omega
  rw [List.append_assoc] at hrest
  have hahead : ((Cursor.ofChars text.toList).past ws).rest = front ++ [last] ++ ys :=
    Cursor.rest_past hrest
  obtain ⟨more, rfl⟩ : front ++ [last] <+: xs :=
    List.prefix_of_prefix_length_le ⟨_, hahead.symm⟩ ⟨vs, hplace.symm⟩ hlt.le
  exact hlast last (by simp) (hchars last (List.mem_append_left _ List.mem_concat_self))

/-- No match begins inside of another one. -/
def Separate (bound : Nat) (r : Regex) : Prop :=
  ∀ s zs ys m t m' t', s.rest = zs ++ ys → zs ≠ [] → r.matchAt bound s = some (m, t) →
    r.matchAt bound (s.past zs) = some (m', t') → m.stop ≤ s.index + zs.length

/-- The matches in a text are those at all positions. -/
theorem Separate.mem_findAll_iff {text : String} (hseparate : Separate text.length r)
    (hadvances : Advances text.length r) :
    m ∈ r.findAll text ↔ ∃ zs ys t, text.toList = zs ++ ys ∧
      r.matchAt text.length ((Cursor.ofChars text.toList).past zs) = some (m, t) := by
  constructor
  · exact exists_place_of_mem_matchesFrom
  · rintro ⟨zs, ys, t, hrest, h⟩
    refine mem_findAll hadvances hrest h ?_
    rintro ws us m' t' rfl hne hmatch
    rw [List.append_assoc] at hrest
    rw [Cursor.past_append] at h
    have hstop := hseparate _ us ys m' t' m t (Cursor.rest_past hrest) hne hmatch h
    rwa [Cursor.index_past, Nat.add_assoc, ← List.length_append, Cursor.ofChars,
      Nat.zero_add] at hstop

end Regex

end CodeSurvey
