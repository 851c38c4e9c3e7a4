import CodeSurvey.Regex.Search
import Mathlib

/-!
# The ways of an expression

The matcher tries the ways to match in order of preference, and what follows decides which of them is
taken. At a position an expression can fail, it can have one way only, or its preferred way can lead
to another position. The rules of this module find out which of these holds, one for each form of
expression, so that matching a text with unknown parts needs no computation of the matcher.
-/

namespace CodeSurvey

/-! ## Positions -/

namespace Cursor

variable {s : Cursor} {xs ys : List Char}

/-- The position after characters that follow. -/
def past (s : Cursor) : List Char → Cursor
  | [] => s
  | x :: xs => past { s with before := some x, rest := s.rest.tail, index := s.index + 1 } xs

@[simp] theorem index_past (s : Cursor) (xs : List Char) :
    (s.past xs).index = s.index + xs.length := by
  induction xs generalizing s with
  | nil => rfl
  | cons x xs ih =>
    simp only [past, ih, List.length_cons]
    omega

@[simp] theorem groups_past (s : Cursor) (xs : List Char) : (s.past xs).groups = s.groups := by
  induction xs generalizing s with
  | nil => rfl
  | cons x xs ih => rw [past, ih]

theorem rest_past (h : s.rest = xs ++ ys) : (s.past xs).rest = ys := by
  induction xs generalizing s with
  | nil => exact h
  | cons x xs ih =>
    apply ih
    rw [h]
    rfl

theorem length_rest_past_le (s : Cursor) (xs : List Char) :
    (s.past xs).rest.length ≤ s.rest.length := by
  induction xs generalizing s with
  | nil => rfl
  | cons x xs ih =>
    refine (ih _).trans ?_
    simp

/-- What is captured on the way over characters is these characters. -/
theorem capture_past (h : s.rest = xs ++ ys) (n : Nat) :
    (s.past xs).capture s n = { s.past xs with groups := (n, ⟨s.index, xs⟩) :: s.groups } := by
  simp [capture, h]

theorem past_append (s : Cursor) (xs ys : List Char) : s.past (xs ++ ys) = (s.past xs).past ys := by
  induction xs generalizing s with
  | nil => rfl
  | cons x xs ih => exact ih _

theorem before_past_concat (s : Cursor) (xs : List Char) (x : Char) :
    (s.past (xs ++ [x])).before = some x := by
  rw [past_append]
  rfl

def withGroups (s : Cursor) (groups : List (Nat × Capture)) : Cursor := { s with groups }

@[simp] theorem rest_withGroups (s : Cursor) (groups : List (Nat × Capture)) :
    (s.withGroups groups).rest = s.rest := rfl

@[simp] theorem index_withGroups (s : Cursor) (groups : List (Nat × Capture)) :
    (s.withGroups groups).index = s.index := rfl

@[simp] theorem withGroups_past (s : Cursor) (groups : List (Nat × Capture)) (xs : List Char) :
    (s.withGroups groups).past xs = (s.past xs).withGroups groups := by
  induction xs generalizing s with
  | nil => rfl
  | cons x xs ih => exact ih { s with before := some x, rest := s.rest.tail, index := s.index + 1 }

@[simp] theorem withGroups_withGroups (s : Cursor) (groups later : List (Nat × Capture)) :
    (s.withGroups groups).withGroups later = s.withGroups later := rfl

end Cursor

namespace Regex

variable {bound : Nat} {r a b : Regex} {c : CharClass} {s t u : Cursor} {xs ys : List Char}

/-! ## Three answers -/

/-- No way to match leads anywhere. -/
def Fails (bound : Nat) (r : Regex) (s : Cursor) : Prop :=
  ∀ (α : Type) (k : Cursor → Option α), r.run bound s k = none

/-- The one way to match leads to `t`. -/
def Only (bound : Nat) (r : Regex) (s t : Cursor) : Prop :=
  ∀ (α : Type) (k : Cursor → Option α), r.run bound s k = k t

/-- The preferred way to match leads to `t`, and is taken if the match can go on from there. -/
def Takes (bound : Nat) (r : Regex) (s t : Cursor) : Prop :=
  ∀ (α : Type) (k : Cursor → Option α) (x : α), k t = some x → r.run bound s k = some x

theorem Only.takes (h : Only bound r s t) : Takes bound r s t := by
  intro α k x hx
  rw [h α k, hx]

/-! ## Sequences, groups and alternatives -/

theorem Takes.empty (s : Cursor) : Takes bound empty s s := fun _ _ _ hx => hx

theorem Takes.seq (ha : Takes bound a s t) (hb : Takes bound b t u) :
    Takes bound (.seq a b) s u := by
  intro α k x hx
  exact ha α _ x (hb α k x hx)

theorem Only.seq (ha : Only bound a s t) (hb : Only bound b t u) : Only bound (.seq a b) s u :=
  fun α k => (ha α _).trans (hb α k)

theorem Fails.seq (ha : Fails bound a s) (b : Regex) : Fails bound (.seq a b) s :=
  fun α _ => ha α _

theorem Only.fails_seq (ha : Only bound a s t) (hb : Fails bound b t) :
    Fails bound (.seq a b) s := by
  intro α k
  exact (ha α _).trans (hb α k)

theorem Takes.group (h : Takes bound r s t) (n : Nat) :
    Takes bound (.group n r) s (t.capture s n) :=
  fun α k x hx => h α (fun t => k (t.capture s n)) x hx

theorem Only.group (h : Only bound r s t) (n : Nat) :
    Only bound (.group n r) s (t.capture s n) :=
  fun α k => h α fun t => k (t.capture s n)

theorem Fails.group (h : Fails bound r s) (n : Nat) : Fails bound (.group n r) s :=
  fun α k => h α fun t => k (t.capture s n)

theorem Only.opt (h : Fails bound r s) : Only bound (opt r) s s := by
  intro α k
  change (r.run bound s k).orElse _ = _
  rw [h α k]
  rfl

section Choices

variable {α : Type} {rs : List Regex} {k : Cursor → Option α}

theorem run_any_nil : (any []).run bound s k = none := by
  change (set .never).run bound s k = none
  unfold run
  cases s.rest <;> rfl

/-- Several expressions are tried one after the other. -/
theorem run_any_cons (r : Regex) (rs : List Regex) (k : Cursor → Option α) :
    (any (r :: rs)).run bound s k =
      (r.run bound s k).orElse fun _ => (any rs).run bound s k := by
  cases rs with
  | cons r' rs => rfl
  | nil =>
    rw [run_any_nil, any]
    cases r.run bound s k <;> rfl

theorem run_any_eq_none (h : ∀ r ∈ rs, r.run bound s k = none) : (any rs).run bound s k = none := by
  induction rs with
  | nil => exact run_any_nil
  | cons r rs ih =>
    obtain ⟨hr, hrs⟩ := List.forall_mem_cons.mp h
    rw [run_any_cons, hr, ih hrs]
    rfl

theorem Fails.any (h : ∀ r ∈ rs, Fails bound r s) : Fails bound (any rs) s :=
  fun α k => run_any_eq_none fun r hr => h r hr α k

theorem Fails.any_seq (h : ∀ r ∈ rs, Fails bound (.seq r b) s) :
    Fails bound (.seq (Regex.any rs) b) s :=
  fun α k => run_any_eq_none fun r hr => h r hr α k

end Choices

/-! ## Characters and repetitions -/

theorem Fails.set (h : ∀ x ∈ s.rest.head?, c.has x = false) : Fails bound (.set c) s := by
  intro α k
  unfold run
  cases hrest : s.rest with
  | nil => rfl
  | cons x xs =>
    have hx : c.has x = false := h x (by simp [hrest])
    simp [hx]

theorem Only.set {x : Char} (hrest : s.rest = x :: xs) (hx : c.has x = true) :
    Only bound (.set c) s (s.past [x]) := by
  intro α k
  simp [run, hrest, hx, Cursor.past]

theorem Only.many (h : Fails bound r s) : Only bound (many r) s s := by
  intro α k
  change runRounds _ true bound s k = k s
  cases bound with
  | zero => rfl
  | succ rounds =>
    simp only [runRounds, if_true]
    rw [h]
    rfl

/-- The preferred way through at most so many rounds leads to `t`. -/
def TakesRounds (bound rounds : Nat) (r : Regex) (s t : Cursor) : Prop :=
  ∀ (α : Type) (k : Cursor → Option α) (x : α), k t = some x →
    runRounds (fun t k => r.run bound t k) true rounds s k = some x

theorem TakesRounds.stop (h : Fails bound r s) (rounds : Nat) : TakesRounds bound rounds r s s := by
  intro α k x hx
  cases rounds with
  | zero => exact hx
  | succ rounds =>
    simp only [runRounds, if_true]
    rw [h]
    exact hx

theorem TakesRounds.next {rounds : Nat} (h : Takes bound r s t) (hlt : s.index < t.index)
    (hmore : TakesRounds bound rounds r t u) : TakesRounds bound (rounds + 1) r s u := by
  intro α k x hx
  simp only [runRounds, if_true]
  rw [h α _ x ((if_pos hlt).trans (hmore α k x hx))]
  rfl

theorem TakesRounds.many (h : TakesRounds bound bound r s t) : Takes bound (many r) s t := h

/-- Rounds over characters of a class go on as long as there are any. -/
theorem takesRounds_set {rounds : Nat} (hrest : s.rest = xs ++ ys) (hxs : ∀ x ∈ xs, c.has x = true)
    (hys : ∀ y ∈ ys.head?, c.has y = false) (hrounds : xs.length ≤ rounds) :
    TakesRounds bound rounds (.set c) s (s.past xs) := by
  induction xs generalizing s rounds with
  | nil => exact .stop (Fails.set (by rw [hrest]; exact hys)) rounds
  | cons x xs ih =>
    obtain ⟨hx, hxs⟩ := List.forall_mem_cons.mp hxs
    obtain ⟨rounds, rfl⟩ : ∃ n, rounds = n + 1 := Nat.exists_eq_add_one.mpr
      (Nat.lt_of_lt_of_le (Nat.succ_pos _) hrounds)
    have hnext : (s.past [x]).rest = xs ++ ys := Cursor.rest_past hrest
    exact .next (Only.set hrest hx).takes (by simp)
      (ih hnext hxs (Nat.le_of_succ_le_succ hrounds))

theorem Takes.many_set (hrest : s.rest = xs ++ ys) (hxs : ∀ x ∈ xs, c.has x = true)
    (hys : ∀ y ∈ ys.head?, c.has y = false) (hbound : xs.length ≤ bound) :
    Takes bound (many (.set c)) s (s.past xs) :=
  (takesRounds_set hrest hxs hys hbound).many

theorem Takes.plus_set (hne : xs ≠ []) (hrest : s.rest = xs ++ ys)
    (hxs : ∀ x ∈ xs, c.has x = true) (hys : ∀ y ∈ ys.head?, c.has y = false)
    (hbound : xs.length ≤ bound) : Takes bound (plus (.set c)) s (s.past xs) := by
  cases xs with
  | nil => exact absurd rfl hne
  | cons x xs =>
    obtain ⟨hx, hxs⟩ := List.forall_mem_cons.mp hxs
    have hnext : (s.past [x]).rest = xs ++ ys := Cursor.rest_past hrest
    refine Takes.seq (Only.set hrest hx).takes (Takes.many_set hnext hxs hys ?_)
    exact Nat.le_of_succ_le hbound

/-! ## Words in any case -/

/-- Whether two words agree up to case as far as both of them go. -/
def agree (w u : List Char) : Bool :=
  (w.zip u).all fun p => (CharClass.anyCase (.one p.1)).has p.2

/-- A word fails where the text differs from it before either ends. -/
theorem Fails.litAnyCase {w : String} (hrest : s.rest = xs ++ ys)
    (h : agree w.toList xs = false) : Fails bound (litAnyCase w) s := by
  unfold Regex.litAnyCase
  generalize w.toList = cs at h
  induction cs generalizing s xs with
  | nil => simp [agree] at h
  | cons c cs ih =>
    cases xs with
    | nil => simp [agree] at h
    | cons x xs =>
      cases hx : (CharClass.anyCase (.one c)).has x with
      | false =>
        apply Fails.seq
        apply Fails.set
        simpa [hrest] using hx
      | true =>
        have hnext : (s.past [x]).rest = xs ++ ys := Cursor.rest_past hrest
        have hagree : agree cs xs = false := by simpa [agree, hx] using h
        exact Only.fails_seq (Only.set hrest hx) (ih hnext hagree)

theorem Only.litAnyCase {w : String} (hrest : s.rest = xs ++ ys)
    (h : agree w.toList xs = true) (hlength : w.toList.length = xs.length) :
    Only bound (litAnyCase w) s (s.past xs) := by
  unfold Regex.litAnyCase
  generalize w.toList = cs at h hlength
  induction cs generalizing s xs with
  | nil =>
    obtain rfl : xs = [] := List.length_eq_zero_iff.mp hlength.symm
    exact fun _ _ => rfl
  | cons c cs ih =>
    cases xs with
    | nil => simp at hlength
    | cons x xs =>
      simp only [agree, List.zip_cons_cons, List.all_cons, Bool.and_eq_true] at h
      have hnext : (s.past [x]).rest = xs ++ ys := Cursor.rest_past hrest
      exact Only.seq (Only.set hrest h.1) (ih hnext h.2 (Nat.succ.inj hlength))

theorem Fails.oneOfAnyCase {ws : List String} (hrest : s.rest = xs ++ ys)
    (h : ∀ w ∈ ws, agree w.toList xs = false) : Fails bound (oneOfAnyCase ws) s := by
  apply Fails.any
  intro r hr
  obtain ⟨w, hw, rfl⟩ := List.mem_map.mp hr
  exact Fails.litAnyCase hrest (h w hw)

/-- The first word that the text does not differ from is taken if it stands there. -/
theorem Takes.oneOfAnyCase {ws : List String} {w : String} (hrest : s.rest = xs ++ ys)
    (hw : ws.find? (fun w => agree w.toList xs) = some w)
    (hlength : w.toList.length = xs.length) :
    Takes bound (oneOfAnyCase ws) s (s.past xs) := by
  intro α k x hx
  induction ws with
  | nil => cases hw
  | cons w' ws ih =>
    change (any (Regex.litAnyCase w' :: ws.map Regex.litAnyCase)).run bound s k = some x
    rw [run_any_cons]
    cases hagree : agree w'.toList xs with
    | false =>
      rw [List.find?_cons_of_neg (by simp [hagree])] at hw
      rw [Fails.litAnyCase hrest hagree]
      exact ih hw
    | true =>
      rw [List.find?_cons_of_pos (p := fun w : String => agree w.toList xs) hagree] at hw
      obtain rfl := Option.some_inj.mp hw
      rw [Only.litAnyCase hrest hagree hlength, hx]
      rfl

/-! ## Searches from the start of a text -/

theorem matchAt_start_of_before (bound : Nat) (r : Regex) (c : Char) (cs : List Char) (i : Nat) :
    (seq start r).matchAt bound ⟨some c, cs, i, []⟩ = none := rfl

/-- An expression that begins with the start of the text matches nowhere else. -/
theorem searchFrom_start (bound : Nat) (r : Regex) (c : Char) (cs : List Char) (i : Nat) :
    (seq start r).searchFrom bound (some c) cs i = none := by
  induction cs generalizing c i with
  | nil => rfl
  | cons c' cs ih =>
    rw [searchFrom, matchAt_start_of_before, ih]
    rfl

theorem find?_start (r : Regex) (text : String) :
    (seq start r).find? text =
      (r.run text.length (Cursor.ofChars text.toList) fun t =>
        some (Match.mk 0 t.index (text.toList.take t.index) t.groups, t)).map (·.1) := by
  have hstart : (seq start r).matchAt text.length (Cursor.ofChars text.toList) =
      r.run text.length (Cursor.ofChars text.toList) fun t =>
        some (Match.mk 0 t.index (text.toList.take t.index) t.groups, t) := rfl
  rw [find?, search, ← hstart]
  unfold Cursor.ofChars
  cases text.toList with
  | nil => rfl
  | cons c cs =>
    rw [searchFrom, searchFrom_start]
    cases (seq start r).matchAt text.length _ <;> rfl

theorem Fails.find? {text : String} (h : Fails text.length r (Cursor.ofChars text.toList)) :
    (Regex.seq start r).find? text = none := by
  rw [find?_start, h]
  rfl

theorem Takes.find? {text : String} (h : Takes text.length r (Cursor.ofChars text.toList) t) :
    (Regex.seq start r).find? text = some ⟨0, t.index, text.toList.take t.index, t.groups⟩ := by
  have htaken := h _ (fun t =>
    some (Match.mk 0 t.index (text.toList.take t.index) t.groups, t)) _ rfl
  rw [find?_start, htaken]
  rfl

end Regex

end CodeSurvey
