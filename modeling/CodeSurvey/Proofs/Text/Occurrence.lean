import CodeSurvey.Number.Shortest
import CodeSurvey.Text.Search
import Mathlib

/-!
# Occurrences of a text in another

A text occurs in another if its characters stand there in one piece. Searching and replacing are
described by this notion. A text that begins with a character does not begin in a part without it,
so that what stands before the first place where it can occur does not matter.
-/

namespace CodeSurvey.Text

/-- The characters of `p` stand in `s` in one piece. -/
def Occurs (p s : String) : Prop := p.toList <:+: s.toList

instance (p s : String) : Decidable (Occurs p s) :=
  inferInstanceAs (Decidable (p.toList <:+: s.toList))

/-- A piece that begins with `c` does not begin in a part without `c`. -/
theorem infix_append_iff_of_not_mem {α : Type} {c : α} {p a b : List α} (h : c ∉ a) :
    (c :: p) <:+: a ++ b ↔ (c :: p) <:+: b := by
  induction a with
  | nil => rfl
  | cons x a ih =>
    obtain ⟨hx, ha⟩ := List.ne_and_not_mem_of_not_mem_cons h
    rw [List.cons_append, List.infix_cons_iff, ih ha, or_iff_right_iff_imp]
    intro hprefix
    exact absurd (List.cons_prefix_cons.mp hprefix).1 hx

/-! ## Texts that begin with another -/

theorem afterChars?_eq_some_iff {p s rest : List Char} :
    afterChars? p s = some rest ↔ s = p ++ rest := by
  induction p generalizing s with
  | nil => simp [afterChars?]
  | cons c p ih =>
    cases s with
    | nil => simp [afterChars?]
    | cons d s =>
      by_cases h : c = d
      · simp [afterChars?, h, ih]
      · simp [afterChars?, h, Ne.symm h]

theorem afterStart?_eq_some_iff {p s rest : String} :
    afterStart? p s = some rest ↔ s.toList = p.toList ++ rest.toList := by
  simp only [afterStart?, Option.map_eq_some_iff, afterChars?_eq_some_iff]
  constructor
  · rintro ⟨cs, hcs, rfl⟩
    rw [hcs, String.toList_ofList]
  · intro h
    exact ⟨rest.toList, h, String.ofList_toList⟩

/-! ## Texts that begin with a slash -/

theorem exists_tail_of_startsWith {word : String} (h : startsWith "/" word = true) :
    ∃ tail, word.toList = '/' :: tail := by
  obtain ⟨tail, htail⟩ := List.isPrefixOf_iff_prefix.mp h
  exact ⟨tail, htail.symm⟩

/-- A text that begins with a slash does not begin in a text without one. -/
theorem occurs_append_iff {word before : String} (hword : startsWith "/" word = true)
    (hbefore : '/' ∉ before.toList) (after : String) :
    Occurs word (before ++ after) ↔ Occurs word after := by
  obtain ⟨tail, htail⟩ := exists_tail_of_startsWith hword
  rw [Occurs, Occurs, htail, String.toList_append]
  exact infix_append_iff_of_not_mem hbefore

theorem not_occurs_of_not_mem {word s : String} (hword : startsWith "/" word = true)
    (hs : '/' ∉ s.toList) : ¬ Occurs word s := by
  obtain ⟨tail, htail⟩ := exists_tail_of_startsWith hword
  intro h
  rw [Occurs, htail] at h
  exact hs (h.subset List.mem_cons_self)

/-! ## Searching -/

theorem isSome_findChars?_iff (p s : List Char) (i : Nat) :
    (findChars? p s i).isSome ↔ p <:+: s := by
  induction s generalizing i with
  | nil => simp [findChars?]
  | cons c s ih =>
    rw [findChars?, List.infix_cons_iff]
    by_cases hp : p.isPrefixOf (c :: s) = true
    · simp [hp, List.isPrefixOf_iff_prefix.mp hp]
    · rw [if_neg hp, ih, or_iff_right (fun h => hp (List.isPrefixOf_iff_prefix.mpr h))]

/-- A text is found where it occurs. -/
theorem contains_iff_occurs (p s : String) : contains p s = true ↔ Occurs p s :=
  isSome_findChars?_iff p.toList s.toList 0

/-! ## Replacing -/

theorem replaceChars_skip (old new : List Char) (skip : Nat) (cs : List Char) :
    replaceChars old new skip cs = replaceChars old new 0 (cs.drop skip) := by
  induction cs generalizing skip with
  | nil => simp [replaceChars]
  | cons c cs ih =>
    cases skip with
    | zero => rfl
    | succ skip => exact ih skip

theorem replaceChars_of_not_infix {old cs : List Char} (h : ¬ old <:+: cs) (new : List Char) :
    replaceChars old new 0 cs = cs := by
  induction cs with
  | nil => rfl
  | cons c cs ih =>
    rw [List.infix_cons_iff, not_or] at h
    rw [replaceChars, if_neg (fun hp => h.1 (List.isPrefixOf_iff_prefix.mp hp)), ih h.2]

theorem replaceChars_between {c : Char} {old before after : List Char} (hbefore : c ∉ before)
    (hafter : ¬ (c :: old) <:+: after) (new : List Char) :
    replaceChars (c :: old) new 0 (before ++ (c :: old ++ after)) = before ++ (new ++ after) := by
  induction before with
  | nil =>
    have hprefix : (c :: old).isPrefixOf (c :: (old ++ after)) = true :=
      List.isPrefixOf_iff_prefix.mpr (List.prefix_append (c :: old) after)
    rw [List.nil_append, List.cons_append, replaceChars, if_pos hprefix, replaceChars_skip,
      List.length_cons, Nat.add_sub_cancel, List.drop_left, replaceChars_of_not_infix hafter]
    rfl
  | cons x before ih =>
    obtain ⟨hx, hrest⟩ := List.ne_and_not_mem_of_not_mem_cons hbefore
    have hprefix : ¬ (c :: old).isPrefixOf (x :: (before ++ (c :: old ++ after))) = true := by
      intro hp
      exact hx (List.cons_prefix_cons.mp (List.isPrefixOf_iff_prefix.mp hp)).1
    rw [List.cons_append, replaceChars, if_neg hprefix, ih hrest]
    rfl

/-- A text whose first character does not stand before it, and that does not occur after it, is
replaced this once. -/
theorem replace_between {c : Char} {tail : List Char} {old before after : String}
    (hold : old.toList = c :: tail) (hbefore : c ∉ before.toList) (hafter : ¬ Occurs old after)
    (new : String) : replace old new (before ++ (old ++ after)) = before ++ (new ++ after) := by
  have hne : old.isEmpty = false := by
    rw [← Bool.not_eq_true, String.isEmpty_iff]
    rintro rfl
    simp at hold
  rw [Occurs, hold] at hafter
  rw [← String.toList_inj, replace, hne]
  simp only [Bool.false_eq_true, if_false, String.toList_ofList, String.toList_append, hold]
  exact replaceChars_between hbefore hafter new.toList

/-! ## Splitting -/

theorem cutChars_of_not_infix {sep cs : List Char} (h : ¬ sep <:+: cs) (pending : List Char) :
    cutChars sep pending 0 cs = [pending.reverse ++ cs] := by
  induction cs generalizing pending with
  | nil => simp [cutChars]
  | cons c cs ih =>
    rw [List.infix_cons_iff, not_or] at h
    rw [cutChars, if_neg (fun hp => h.1 (List.isPrefixOf_iff_prefix.mp hp)), ih h.2]
    simp

/-- A text in which the separator does not occur is one piece. -/
theorem splitOn_of_not_occurs {sep s : String} (h : ¬ Occurs sep s) : splitOn sep s = [s] := by
  rw [splitOn, cutChars_of_not_infix h]
  simp

/-! ## Numbers -/

theorem not_mem_digitText {c : Char} (hc : c.isDigit = false) (n : Nat) :
    c ∉ (Decimal.digitText n).toList := by
  intro h
  rw [Decimal.digitText, String.toList_ofList] at h
  rw [Nat.isDigit_of_mem_toDigits (by decide) (by decide) h] at hc
  cases hc

end CodeSurvey.Text
