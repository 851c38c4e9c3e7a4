import CodeSurvey.Proofs.Regex.Ways

/-!
# How far a match goes

Apart from the order of preference, an expression relates positions: it reads its way from one to
another. Whatever way the matcher takes, it is such a way and leads forward, and a text that stands in
the expression as it is stands in the source. So a match that begins with such a text at the start of
the source is at least as long.
-/

namespace CodeSurvey

namespace Regex

/-- The expression can read its way from one position to another. -/
inductive Reads : Regex → Cursor → Cursor → Prop
  | empty {s : Cursor} : Reads .empty s s
  | set {c : CharClass} {s : Cursor} {x : Char} {xs : List Char} (hrest : s.rest = x :: xs)
      (hx : c.has x = true) : Reads (.set c) s (s.past [x])
  | look {a : Anchor} {s : Cursor} (h : a.holds s = true) : Reads (.look a) s s
  | seq {a b : Regex} {s t u : Cursor} (ha : Reads a s t) (hb : Reads b t u) : Reads (.seq a b) s u
  | left {a b : Regex} {s t : Cursor} (h : Reads a s t) : Reads (.alt a b) s t
  | right {a b : Regex} {s t : Cursor} (h : Reads b s t) : Reads (.alt a b) s t
  | stop {greedy : Bool} {r : Regex} {s : Cursor} : Reads (.star greedy r) s s
  | round {greedy : Bool} {r : Regex} {s t u : Cursor} (h : Reads r s t) (hlt : s.index < t.index)
      (hmore : Reads (.star greedy r) t u) : Reads (.star greedy r) s u
  | group {n : Nat} {r : Regex} {s t : Cursor} (h : Reads r s t) :
      Reads (.group n r) s (t.capture s n)

variable {α : Type} {bound : Nat} {r : Regex} {s t : Cursor} {k : Cursor → Option α} {x : α}

/-- A class takes the next character. -/
theorem exists_of_run_set {c : CharClass} (h : (set c).run bound s k = some x) :
    ∃ y ys, s.rest = y :: ys ∧ c.has y = true ∧ k (s.past [y]) = some x := by
  unfold run at h
  split at h
  · cases h
  · next y ys hrest =>
    split at h
    · next hhas => exact ⟨y, ys, hrest, hhas, by simpa [Cursor.past, hrest] using h⟩
    · cases h

theorem exists_reads_of_runRounds {greedy : Bool} {rounds : Nat}
    (hbody : ∀ s k, r.run bound s k = some x → ∃ t, Reads r s t ∧ k t = some x)
    (h : runRounds (fun t k => r.run bound t k) greedy rounds s k = some x) :
    ∃ t, Reads (.star greedy r) s t ∧ k t = some x := by
  induction rounds generalizing s with
  | zero => exact ⟨s, .stop, h⟩
  | succ rounds ih =>
    have hround (hagain : r.run bound s (fun t => if s.index < t.index then
        runRounds (fun t k => r.run bound t k) greedy rounds t k else none) = some x) :
        ∃ t, Reads (.star greedy r) s t ∧ k t = some x := by
      obtain ⟨t, hst, ht⟩ := hbody s _ hagain
      split at ht
      · next hlt =>
        obtain ⟨u, htu, hu⟩ := ih ht
        exact ⟨u, .round hst hlt htu, hu⟩
      · cases ht
    simp only [runRounds] at h
    split at h
    · rcases (Option.orElse_eq_some _ _ x).mp h with hagain | ⟨-, hk⟩
      · exact hround hagain
      · exact ⟨s, .stop, hk⟩
    · rcases (Option.orElse_eq_some _ _ x).mp h with hk | ⟨-, hagain⟩
      · exact ⟨s, .stop, hk⟩
      · exact hround hagain

/-- Where the matcher succeeds it has read its way to a position that the rest of the match
accepts. -/
theorem exists_reads_of_run (h : r.run bound s k = some x) : ∃ t, Reads r s t ∧ k t = some x := by
  induction r generalizing s k with
  | empty => exact ⟨s, .empty, h⟩
  | set c =>
    obtain ⟨y, ys, hrest, hy, hk⟩ := exists_of_run_set h
    exact ⟨s.past [y], .set hrest hy, hk⟩
  | look a =>
    unfold run at h
    split at h
    · next hholds => exact ⟨s, .look hholds, h⟩
    · cases h
  | seq a b iha ihb =>
    obtain ⟨t, hst, ht⟩ := iha h
    obtain ⟨u, htu, hu⟩ := ihb ht
    exact ⟨u, .seq hst htu, hu⟩
  | alt a b iha ihb =>
    rcases (Option.orElse_eq_some _ _ x).mp h with ha | ⟨-, hb⟩
    · obtain ⟨t, hst, ht⟩ := iha ha
      exact ⟨t, .left hst, ht⟩
    · obtain ⟨t, hst, ht⟩ := ihb hb
      exact ⟨t, .right hst, ht⟩
  | star greedy r ih => exact exists_reads_of_runRounds (fun s k => ih) h
  | group n r ih =>
    obtain ⟨t, hst, ht⟩ := ih (k := fun t => k (t.capture s n)) h
    exact ⟨t.capture s n, .group hst, ht⟩

/-- Reading leads past the characters that are read, with some groups captured. -/
theorem Reads.exists_past (h : Reads r s t) :
    ∃ xs ys groups, s.rest = xs ++ ys ∧ t = (s.past xs).withGroups groups := by
  have hjoin {s u : Cursor} {xs ys : List Char} {groups : List (Nat × Capture)}
      (hrest : s.rest = xs ++ ys)
      (h : ∃ zs ws later, ((s.past xs).withGroups groups).rest = zs ++ ws ∧
        u = (((s.past xs).withGroups groups).past zs).withGroups later) :
      ∃ zs ws later, s.rest = zs ++ ws ∧ u = (s.past zs).withGroups later := by
    obtain ⟨zs, ws, later, hrest', rfl⟩ := h
    rw [Cursor.rest_withGroups, Cursor.rest_past hrest] at hrest'
    refine ⟨xs ++ zs, ws, later, by rw [hrest, hrest', List.append_assoc], ?_⟩
    rw [Cursor.withGroups_past, Cursor.withGroups_withGroups, Cursor.past_append]
  induction h with
  | empty => exact ⟨[], _, _, rfl, rfl⟩
  | @set c s x xs hrest hx => exact ⟨[x], xs, _, hrest, rfl⟩
  | look h => exact ⟨[], _, _, rfl, rfl⟩
  | seq ha hb iha ihb =>
    obtain ⟨xs, ys, groups, hrest, rfl⟩ := iha
    exact hjoin hrest ihb
  | left _ ih | right _ ih => exact ih
  | stop => exact ⟨[], _, _, rfl, rfl⟩
  | round h hlt hmore ih ihmore =>
    obtain ⟨xs, ys, groups, hrest, rfl⟩ := ih
    exact hjoin hrest ihmore
  | group h ih =>
    obtain ⟨xs, ys, groups, hrest, rfl⟩ := ih
    exact ⟨xs, ys, _, hrest, rfl⟩

/-- Reading passes over characters. -/
theorem Reads.exists_append (h : Reads r s t) :
    ∃ xs, s.rest = xs ++ t.rest ∧ t.index = s.index + xs.length := by
  obtain ⟨xs, ys, groups, hrest, rfl⟩ := h.exists_past
  exact ⟨xs, hrest.trans (congrArg (xs ++ ·) (Cursor.rest_past hrest).symm), Cursor.index_past s xs⟩

@[simp] theorem matchAt_withGroups (bound : Nat) (r : Regex) (s : Cursor)
    (groups : List (Nat × Capture)) :
    r.matchAt bound (s.withGroups groups) = r.matchAt bound s := rfl

theorem reads_of_matchAt {m : Match} (h : r.matchAt bound s = some (m, t)) :
    Reads r { s with groups := [] } t ∧ m.groups = t.groups := by
  obtain ⟨u, hread, hu⟩ := exists_reads_of_run h
  cases hu
  exact ⟨hread, rfl⟩

/-- A match reads what stands between its ends. -/
theorem exists_of_matchAt {m : Match} (h : r.matchAt bound s = some (m, t)) :
    ∃ xs ys groups, s.rest = xs ++ ys ∧ t = (s.past xs).withGroups groups ∧
      m = ⟨s.index, s.index + xs.length, xs, groups⟩ := by
  obtain ⟨u, hread, hu⟩ := exists_reads_of_run h
  cases hu
  obtain ⟨xs, ys, groups, hrest, rfl⟩ := hread.exists_past
  change s.rest = xs ++ ys at hrest
  refine ⟨xs, ys, groups, hrest, (congrArg (·.withGroups groups) (s.withGroups_past [] xs)), ?_⟩
  simp [hrest, Cursor.withGroups]

/-- A text is matched only where it stands. -/
theorem exists_of_run_lit {w : String} (h : (lit w).run bound s k = some x) :
    ∃ ys, s.rest = w.toList ++ ys ∧ k (s.past w.toList) = some x := by
  unfold lit at h
  generalize w.toList = cs at h
  induction cs generalizing s with
  | nil => exact ⟨s.rest, rfl, h⟩
  | cons c cs ih =>
    have hfirst : (set (.one c)).run bound s
        (fun t => (all (cs.map fun c => set (.one c))).run bound t k) = some x := h
    obtain ⟨y, ys, hrest, hhas, hnext⟩ := exists_of_run_set hfirst
    obtain rfl : c = y := by simpa [CharClass.has] using hhas
    obtain ⟨zs, hzs, hk⟩ := ih hnext
    have hys : (s.past [c]).rest = ys := Cursor.rest_past hrest
    exact ⟨zs, by rw [hrest, ← hys, hzs, List.cons_append], hk⟩

/-- A match of an expression that begins with a text at the start holds this text. -/
theorem prefix_of_find? {w : String} {rs : List Regex} {text : String} {m : Match}
    (h : (all (start :: lit w :: rs)).find? text = some m) :
    w.toList <+: text.toList ∧ w.toList.length ≤ m.stop := by
  change (seq start (seq (lit w) (all rs))).find? text = some m at h
  rw [find?_start] at h
  obtain ⟨⟨m', t⟩, hrun, rfl⟩ := Option.map_eq_some_iff.mp h
  obtain ⟨ys, hys, hrest⟩ := exists_of_run_lit hrun
  obtain ⟨u, hread, hmatch⟩ := exists_reads_of_run hrest
  constructor
  · exact ⟨ys, hys.symm⟩
  · obtain ⟨zs, -, hindex⟩ := hread.exists_append
    cases hmatch
    simp [hindex, Cursor.ofChars]

end Regex

end CodeSurvey
