import CodeSurvey.Proofs.Regex.Progress

/-!
# Texts, choices and lazy repetitions

A text that stands in an expression as it is has one way to match or none. An alternative that leads
nowhere, together with what follows it, leaves the next one, and a lazy repetition stops where the
match can first go on. Whatever way is taken, it leads to an end of what was still to be read, so that
the texts of an expression occur in every text that it matches.
-/

namespace CodeSurvey

/-! ## Prefixes -/

/-- Whether two words differ before either of them ends. -/
def clash (w u : List Char) : Bool := (w.zip u).any fun p => p.1 != p.2

theorem not_prefix_of_clash {w u : List Char} (h : clash w u = true) (ys : List Char) :
    ¬ w <+: u ++ ys := by
  induction w generalizing u with
  | nil => simp [clash] at h
  | cons c w ih =>
    cases u with
    | nil => simp [clash] at h
    | cons d u =>
      rw [List.cons_append, List.cons_prefix_cons]
      rintro ⟨rfl, hw⟩
      refine ih ?_ hw
      simpa [clash] using h

/-- A word without a character that stands in a text does not reach beyond this character. -/
theorem prefix_of_prefix_append {w xs ys : List Char} {y : Char} (hy : y ∉ w)
    (h : w <+: xs ++ y :: ys) : w <+: xs := by
  rcases List.prefix_or_prefix_of_prefix h (List.prefix_append xs (y :: ys)) with hw | hw
  · exact hw
  · obtain ⟨zs, rfl⟩ := hw
    obtain hzs := (List.prefix_append_right_inj xs).mp h
    cases zs with
    | nil => simp
    | cons z zs =>
      obtain ⟨rfl, -⟩ := List.cons_prefix_cons.mp hzs
      exact absurd (List.mem_append_right _ List.mem_cons_self) hy

namespace Regex

variable {bound : Nat} {r a b : Regex} {c : CharClass} {s t u : Cursor} {xs ys : List Char}

/-! ## Texts as they stand -/

theorem Fails.lit {w : String} (h : ¬ w.toList <+: s.rest) : Fails bound (lit w) s := by
  intro α k
  rw [Option.eq_none_iff_forall_ne_some]
  intro x hx
  obtain ⟨ys, hys, -⟩ := exists_of_run_lit hx
  exact h ⟨ys, hys.symm⟩

theorem Only.lit {w : String} (hrest : s.rest = w.toList ++ ys) :
    Only bound (lit w) s (s.past w.toList) := by
  unfold Regex.lit
  generalize w.toList = cs at hrest
  induction cs generalizing s with
  | nil => exact fun _ _ => rfl
  | cons c cs ih =>
    have hnext : (s.past [c]).rest = cs ++ ys := Cursor.rest_past hrest
    exact Only.seq (Only.set hrest (beq_self_eq_true c)) (ih hnext)

theorem Fails.oneOf {ws : List String} (h : ∀ w ∈ ws, ¬ w.toList <+: s.rest) :
    Fails bound (oneOf ws) s := by
  apply Fails.any
  intro r hr
  obtain ⟨w, hw, rfl⟩ := List.mem_map.mp hr
  exact Fails.lit (h w hw)

/-! ## Choices -/

theorem Takes.any_cons {rs : List Regex} (h : Takes bound r s t) :
    Takes bound (any (r :: rs)) s t := by
  intro α k x hx
  rw [run_any_cons, h α k x hx]
  rfl

/-- A choice goes on to the later expressions where the first one fails. -/
theorem Takes.any_tail {rs : List Regex} (hr : Fails bound r s) (h : Takes bound (any rs) s t) :
    Takes bound (any (r :: rs)) s t := by
  intro α k x hx
  rw [run_any_cons, hr α k]
  exact h α k x hx

/-- A word among words that all clash with it is taken. -/
theorem Takes.oneOf {ws : List String} {w : String} (hw : w ∈ ws)
    (hclash : ∀ u ∈ ws, u = w ∨ clash u.toList w.toList = true) (hrest : s.rest = w.toList ++ ys) :
    Takes bound (oneOf ws) s (s.past w.toList) := by
  induction ws with
  | nil => cases hw
  | cons u ws ih =>
    obtain ⟨hu, hws⟩ := List.forall_mem_cons.mp hclash
    by_cases heq : u = w
    · subst heq
      exact Takes.any_cons (Only.lit hrest).takes
    · refine Takes.any_tail (Fails.lit ?_) (ih (List.mem_of_ne_of_mem (Ne.symm heq) hw) hws)
      rw [hrest]
      exact not_prefix_of_clash (hu.resolve_left heq) ys

theorem Takes.opt (h : Takes bound r s t) : Takes bound (opt r) s t := by
  intro α k x hx
  change (r.run bound s k).orElse _ = _
  rw [h α k x hx]
  rfl

/-- What may be left out is left out where it leads nowhere together with what follows. -/
theorem Takes.skip (hr : Fails bound (.seq r b) s) (hb : Takes bound b s t) :
    Takes bound (.seq (Regex.opt r) b) s t := by
  intro α k x hx
  have hnone : r.run bound s (fun t => b.run bound t k) = none := hr α k
  change (r.run bound s fun t => b.run bound t k).orElse _ = _
  rw [hnone]
  exact hb α k x hx

theorem Fails.seq_assoc {d : Regex} (h : Fails bound (.seq a (.seq b d)) s) :
    Fails bound (.seq (.seq a b) d) s := fun α k => h α k

theorem Only.look {anchor : Anchor} (h : anchor.holds s = true) : Only bound (look anchor) s s := by
  intro α k
  unfold run
  rw [if_pos h]

theorem Fails.look {anchor : Anchor} (h : anchor.holds s = false) : Fails bound (look anchor) s := by
  intro α k
  unfold run
  rw [h]
  rfl

/-! ## Repetitions -/

/-- A character of a class is needed. -/
theorem Fails.plus_set (h : ∀ x ∈ s.rest.head?, c.has x = false) :
    Fails bound (plus (.set c)) s := (Fails.set h).seq _

/-- Lazy rounds over characters of a class go on until the match can go on. -/
theorem runRounds_lazy {α : Type} {rounds : Nat} {k : Cursor → Option α} {y : α}
    (hrest : s.rest = xs ++ ys) (hxs : ∀ x ∈ xs, c.has x = true) (hrounds : xs.length ≤ rounds)
    (hshort : ∀ p, p <+: xs → p ≠ xs → k (s.past p) = none) (hk : k (s.past xs) = some y) :
    runRounds (fun t k => (set c).run bound t k) false rounds s k = some y := by
  induction xs generalizing s rounds with
  | nil =>
    cases rounds with
    | zero => exact hk
    | succ rounds =>
      change (k s).orElse _ = _
      rw [show k s = some y from hk]
      rfl
  | cons x xs ih =>
    obtain ⟨hx, hxs⟩ := List.forall_mem_cons.mp hxs
    obtain ⟨rounds, rfl⟩ : ∃ n, rounds = n + 1 := Nat.exists_eq_add_one.mpr
      (Nat.lt_of_lt_of_le (Nat.succ_pos _) hrounds)
    have hnone : k s = none := hshort [] (List.nil_prefix) (by simp)
    have hnext : (s.past [x]).rest = xs ++ ys := Cursor.rest_past hrest
    have hmore := ih hnext hxs (Nat.le_of_succ_le_succ hrounds)
      (fun p hp hne => hshort (x :: p) (List.cons_prefix_cons.mpr ⟨rfl, hp⟩) (by simpa using hne)) hk
    simp only [runRounds, Bool.false_eq_true, if_false, hnone]
    rw [Only.set hrest hx, if_pos (by simp), hmore]
    rfl

/-- A lazy repetition that is captured ends where what follows can first go on. -/
theorem Takes.group_lazy {n : Nat} (hne : xs ≠ []) (hrest : s.rest = xs ++ ys)
    (hxs : ∀ x ∈ xs, c.has x = true) (hbound : xs.length ≤ bound)
    (hshort : ∀ p, p ≠ [] → p <+: xs → p ≠ xs → Fails bound b ((s.past p).capture s n))
    (hb : Takes bound b ((s.past xs).capture s n) t) :
    Takes bound (.seq (.group n (plusLazy (.set c))) b) s t := by
  intro α k x hx
  cases xs with
  | nil => exact absurd rfl hne
  | cons y xs =>
    obtain ⟨hy, hxs⟩ := List.forall_mem_cons.mp hxs
    change (set c).run bound s (fun t => runRounds (fun t k => (set c).run bound t k) false bound t
      fun t => b.run bound (t.capture s n) k) = some x
    rw [Only.set hrest hy]
    have hnext : (s.past [y]).rest = xs ++ ys := Cursor.rest_past hrest
    apply runRounds_lazy hnext hxs (Nat.le_of_succ_le hbound)
    · intro p hp hpne
      exact hshort (y :: p) (List.cons_ne_nil _ _) (List.cons_prefix_cons.mpr ⟨rfl, hp⟩)
        (by simpa using hpne) α k
    · exact hb α k x hx

end Regex

end CodeSurvey
