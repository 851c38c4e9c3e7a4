import CodeSurvey.Text.Blank
import CodeSurvey.Text.Letters
import Mathlib

/-!
# Trimmed texts

Trimming takes off all characters of a sort at both ends: neither end of what is left is of that
sort, and a text with such ends is what is left when more of the sort is put before it. Blanks, which
are taken off for the most part, are no characters of words.
-/

namespace CodeSurvey.Text

theorem toList_trimWhere (p : Char → Bool) (s : String) :
    (trimWhere p s).toList = (s.toList.dropWhile p).rdropWhile p := by
  simp [trimWhere, trimEndWhere, trimStartWhere, dropEndWhile, List.rdropWhile]

theorem not_of_head?_dropWhile {α : Type} {p : α → Bool} {xs : List α} {x : α}
    (h : (xs.dropWhile p).head? = some x) : p x = false := by
  have hhead := List.head?_dropWhile_not p xs
  rw [h] at hhead
  simpa using hhead

/-- A trimmed text does not begin with a character that is taken off. -/
theorem not_of_head?_trimWhere {p : Char → Bool} {s : String} {c : Char}
    (h : (trimWhere p s).toList.head? = some c) : p c = false := by
  rw [toList_trimWhere] at h
  obtain ⟨rest, hrest⟩ := List.rdropWhile_prefix p (s.toList.dropWhile p)
  apply not_of_head?_dropWhile
  rw [← hrest, List.head?_append, h]
  rfl

/-- A trimmed text does not end with a character that is taken off. -/
theorem not_of_getLast?_trimWhere {p : Char → Bool} {s : String} {c : Char}
    (h : (trimWhere p s).toList.getLast? = some c) : p c = false := by
  rw [toList_trimWhere, List.rdropWhile, List.getLast?_reverse] at h
  exact not_of_head?_dropWhile h

/-- Characters that are taken off come off before a text neither end of which is. -/
theorem trimWhere_append {p : Char → Bool} {before s : String}
    (hbefore : ∀ c ∈ before.toList, p c = true) (hhead : ∀ c ∈ s.toList.head?, p c = false)
    (hlast : ∀ c ∈ s.toList.getLast?, p c = false) : trimWhere p (before ++ s) = s := by
  have hdrop : s.toList.dropWhile p = s.toList := by
    rw [List.dropWhile_eq_self_iff]
    intro hlength
    simp [hhead _ (List.head?_eq_getElem? (l := s.toList) ▸ List.getElem?_eq_getElem hlength)]
  have hrdrop : s.toList.rdropWhile p = s.toList := by
    rw [List.rdropWhile_eq_self_iff]
    intro hne
    simp [hlast _ (List.getLast?_eq_some_getLast hne)]
  rw [← String.toList_inj, toList_trimWhere, String.toList_append,
    List.dropWhile_append_of_pos hbefore, hdrop, hrdrop]

/-- A text neither end of which is taken off stays as it is. -/
theorem trimWhere_eq_self {p : Char → Bool} {s : String} (hhead : ∀ c ∈ s.toList.head?, p c = false)
    (hlast : ∀ c ∈ s.toList.getLast?, p c = false) : trimWhere p s = s := by
  have htrim := @trimWhere_append p "" s (List.forall_mem_nil _) hhead hlast
  rwa [String.empty_append] at htrim

/-! ## Blanks -/

def blankCodes : List Nat :=
  [9, 10, 11, 12, 13, 0x20, 0x85, 0xA0, 0x1680, 0x2000, 0x2001, 0x2002, 0x2003, 0x2004, 0x2005,
    0x2006, 0x2007, 0x2008, 0x2009, 0x200A, 0x2028, 0x2029, 0x202F, 0x205F, 0x3000]

theorem isBlank_eq_false_of_isWord {c : Char} (h : isWord c = true) : isBlank c = false := by
  have hcodes : blankCodes.all (fun n => !isWord (Char.ofNat n)) = true := by decide +kernel
  by_contra hblank
  have hmem : c.toNat ∈ blankCodes := by
    simp only [isBlank, Bool.not_eq_false, Bool.or_eq_true, Bool.and_eq_true, beq_iff_eq,
      decide_eq_true_eq] at hblank
    simp only [blankCodes, List.mem_cons, List.not_mem_nil, or_false]
    omega
  have hword := List.all_eq_true.mp hcodes c.toNat hmem
  rw [Char.ofNat_toNat, h] at hword
  cases hword

end CodeSurvey.Text
