import CodeSurvey.Proofs.Regex.Literals

/-!
# Searches

A search passes over all positions at which an expression fails, and goes on behind each match. So
where a text is made of parts that hold no match and parts that are matches, the matches are found
one after the other.
-/

namespace CodeSurvey

namespace Regex

variable {bound : Nat} {r b : Regex} {c : CharClass} {s t : Cursor} {m : Match}
  {xs ys : List Char}

/-! ## The first position -/

/-- A search goes on by one character where there is no match. -/
theorem search_of_rest {x : Char} (hrest : s.rest = x :: xs) :
    r.search bound s = (r.matchAt bound s).orElse fun _ => r.search bound (s.past [x]) := by
  obtain ⟨before, cs, index, groups⟩ := s
  cases hrest
  rfl

theorem search_of_end (hrest : s.rest = []) : r.search bound s = r.matchAt bound s := by
  obtain ⟨before, cs, index, groups⟩ := s
  cases hrest
  rfl

theorem search_of_matchAt (h : r.matchAt bound s = some (m, t)) :
    r.search bound s = some (m, t) := by
  cases hrest : s.rest with
  | nil => rw [search_of_end hrest, h]
  | cons x xs =>
    rw [search_of_rest hrest, h]
    rfl

/-- What a search finds starts behind some characters. -/
theorem exists_place_of_search (h : r.search bound s = some (m, t)) :
    ∃ xs ys, s.rest = xs ++ ys ∧ r.matchAt bound (s.past xs) = some (m, t) := by
  generalize hrest : s.rest = cs
  induction cs generalizing s with
  | nil => exact ⟨[], [], rfl, search_of_end hrest ▸ h⟩
  | cons c cs ih =>
    rw [search_of_rest hrest] at h
    rcases (Option.orElse_eq_some _ _ _).mp h with hfirst | ⟨-, hlater⟩
    · exact ⟨[], c :: cs, rfl, hfirst⟩
    · obtain ⟨xs, ys, rfl, hmatch⟩ := ih hlater (Cursor.rest_past hrest)
      exact ⟨c :: xs, ys, rfl, hmatch⟩

/-- A search passes over characters at which there is no match. -/
theorem search_past (hrest : s.rest = xs ++ ys)
    (h : ∀ ps qs, xs = ps ++ qs → qs ≠ [] → r.matchAt bound (s.past ps) = none) :
    r.search bound s = r.search bound (s.past xs) := by
  induction xs generalizing s with
  | nil => rfl
  | cons x xs ih =>
    have hfirst : r.matchAt bound s = none := h [] (x :: xs) rfl (List.cons_ne_nil x xs)
    rw [search_of_rest hrest, hfirst]
    refine ih (s := s.past [x]) (Cursor.rest_past hrest) ?_
    rintro ps qs rfl hne
    exact h (x :: ps) qs rfl hne

/-! ## Positions without a match -/

/-- Whatever stands before, the expression fails where these characters follow. -/
def FailsAt (bound : Nat) (r : Regex) (cs : List Char) : Prop :=
  ∀ before index groups, Fails bound r ⟨before, cs, index, groups⟩

theorem FailsAt.fails (h : FailsAt bound r xs) (hrest : s.rest = xs) : Fails bound r s := by
  subst hrest
  exact h s.before s.index s.groups

/-- The expression fails at each of some characters, with others after them. -/
def FailsAlong (bound : Nat) (r : Regex) (xs ys : List Char) : Prop :=
  ∀ zs, zs ≠ [] → zs <:+ xs → FailsAt bound r (zs ++ ys)

namespace FailsAlong

theorem nil : FailsAlong bound r [] ys := fun _ hne hsuffix =>
  absurd (List.suffix_nil.mp hsuffix) hne

theorem cons {x : Char} (h : FailsAt bound r (x :: (xs ++ ys))) (hxs : FailsAlong bound r xs ys) :
    FailsAlong bound r (x :: xs) ys := by
  intro zs hne hsuffix
  rcases List.suffix_cons_iff.mp hsuffix with rfl | hsuffix
  · exact h
  · exact hxs zs hne hsuffix

theorem append {zs : List Char} (hxs : FailsAlong bound r xs (ys ++ zs))
    (hys : FailsAlong bound r ys zs) : FailsAlong bound r (xs ++ ys) zs := by
  induction xs with
  | nil => exact hys
  | cons x xs ih =>
    rw [List.cons_append]
    refine cons ?_ (ih fun ws hne hsuffix => hxs ws hne (hsuffix.trans (List.suffix_cons x xs)))
    rw [List.append_assoc]
    exact hxs (x :: xs) (List.cons_ne_nil _ _) (List.suffix_refl _)

theorem flatMap {α : Type} {items : List α} {f : α → List Char}
    (h : ∀ x ∈ items, ∀ ys, FailsAlong bound r (f x) ys) (ys : List Char) :
    FailsAlong bound r (items.flatMap f) ys := by
  induction items with
  | nil => exact nil
  | cons x items ih =>
    obtain ⟨hx, hitems⟩ := List.forall_mem_cons.mp h
    exact (hx _).append (ih hitems)

/-- At characters that no match begins with. -/
theorem of_head (h : ∀ x ∈ xs, ∀ cs, FailsAt bound r (x :: cs)) : FailsAlong bound r xs ys := by
  induction xs with
  | nil => exact nil
  | cons x xs ih =>
    obtain ⟨hx, hxs⟩ := List.forall_mem_cons.mp h
    exact cons (hx _) (ih hxs)

/-- A search passes over the characters. -/
theorem search_eq (h : FailsAlong bound r xs ys) (hrest : s.rest = xs ++ ys) :
    r.search bound s = r.search bound (s.past xs) := by
  refine search_past hrest ?_
  rintro ps qs rfl hne
  rw [List.append_assoc] at hrest
  have hfails : FailsAt bound r (qs ++ ys) := h qs hne ⟨ps, rfl⟩
  exact (hfails.fails (s := { s.past ps with groups := [] }) (Cursor.rest_past hrest)) _ _

end FailsAlong

/-! ## Matches -/

/-- A search finds the match that the expression takes at once. -/
theorem Takes.search (h : Takes bound r { s with groups := [] } t) :
    r.search bound s =
      some (⟨s.index, t.index, s.rest.take (t.index - s.index), t.groups⟩, t) :=
  search_of_matchAt (h _ _ _ rfl)

/-- No match is empty. -/
def Advances (bound : Nat) (r : Regex) : Prop :=
  ∀ s m t, r.search bound s = some (m, t) → m.start < m.stop

/-- Going through the matches from two positions with the same first match. -/
theorem matchesFrom_congr (hadvances : Advances bound r) (h : r.search bound s = r.search bound t)
    (fuel : Nat) (last : Option Nat) :
    r.matchesFrom bound fuel last s = r.matchesFrom bound fuel last t := by
  cases fuel with
  | zero => rfl
  | succ fuel =>
    rw [matchesFrom, matchesFrom, h]
    cases hsearch : r.search bound t with
    | none => rfl
    | some found =>
      obtain ⟨m, u⟩ := found
      have hne : m.start ≠ m.stop := (hadvances _ m u hsearch).ne
      simp [hne]

/-- A match is followed by those behind it. -/
theorem matchesFrom_cons (hadvances : Advances bound r)
    (h : r.search bound s = some (m, t)) (fuel : Nat) (last : Option Nat) :
    r.matchesFrom bound (fuel + 1) last s = m :: r.matchesFrom bound fuel (some m.stop) t := by
  have hne : m.start ≠ m.stop := (hadvances s m t h).ne
  rw [matchesFrom, h]
  simp [hne]

/-- At the end of a text. -/
theorem matchesFrom_end (h : FailsAt bound r []) (hrest : s.rest = []) (fuel : Nat)
    (last : Option Nat) : r.matchesFrom bound fuel last s = [] := by
  cases fuel with
  | zero => rfl
  | succ fuel =>
    have hnone : r.search bound s = none := by
      rw [search, hrest]
      exact h _ _ _ _ _
    rw [matchesFrom, hnone]

/-! ## Lazy repetitions that may be empty -/

/-- A lazy repetition that is captured ends where what follows can first go on. -/
theorem Takes.group_manyLazy {n : Nat} (hrest : s.rest = xs ++ ys)
    (hxs : ∀ x ∈ xs, c.has x = true) (hbound : xs.length ≤ bound)
    (hshort : ∀ p, p <+: xs → p ≠ xs → Fails bound b ((s.past p).capture s n))
    (hb : Takes bound b ((s.past xs).capture s n) t) :
    Takes bound (.seq (.group n (manyLazy (.set c))) b) s t :=
  fun α k x hx => runRounds_lazy (k := fun t => b.run bound (t.capture s n) k) hrest hxs hbound
    (fun p hp hne => hshort p hp hne α k) (hb α k x hx)

end Regex

end CodeSurvey
