import Mathlib

/-!
# Sorted listings

Names are listed in order and each once: duplicates are dropped first, and what is left is sorted.
-/

namespace CodeSurvey.Text

theorem nodup_eraseDups (names : List String) : names.eraseDups.Nodup := by
  -- The list shrinks by a filter at each step, so the induction is on its length.
  induction hn : names.length using Nat.strong_induction_on generalizing names with
  | _ n ih =>
    cases names with
    | nil => simp
    | cons name rest =>
      have hlength : (rest.filter fun b => !b == name).length < n := by
        rw [← hn, List.length_cons]
        exact Nat.lt_succ_of_le (List.length_filter_le _ _)
      rw [List.eraseDups_cons, List.nodup_cons]
      refine ⟨?_, ih _ hlength _ rfl⟩
      simp [List.mem_eraseDups]

/-- Items that are sorted by a key of their own are strictly ascending in it. -/
theorem pairwise_mergeSort_of_nodup {α : Type} (key : α → String) {items : List α}
    (h : (items.map key).Nodup) :
    (items.mergeSort fun a b => !decide (key b < key a)).Pairwise (key · < key ·) := by
  have hsorted : (items.mergeSort fun a b => !decide (key b < key a)).Pairwise
      fun a b => (!decide (key b < key a)) = true := by
    apply List.pairwise_mergeSort
    · intro a b c hab hbc
      simp only [Bool.not_eq_true', decide_eq_false_iff_not, not_lt] at hab hbc ⊢
      exact le_trans hab hbc
    · intro a b
      simp only [Bool.or_eq_true, Bool.not_eq_true', decide_eq_false_iff_not, not_lt]
      exact le_total (key a) (key b)
  have hnodup : (items.mergeSort fun a b => !decide (key b < key a)).Pairwise (key · ≠ key ·) := by
    rw [← List.pairwise_map]
    exact ((List.mergeSort_perm _ _).map key).nodup_iff.mpr h
  apply (hsorted.and hnodup).imp
  rintro a b ⟨hle, hne⟩
  simp only [Bool.not_eq_true', decide_eq_false_iff_not, not_lt] at hle
  exact lt_of_le_of_ne hle hne

/-- A listing without duplicates that is sorted is strictly ascending. -/
theorem pairwise_sorted_eraseDups (names : List String) :
    (names.eraseDups.mergeSort fun a b => !decide (b < a)).Pairwise (· < ·) := by
  apply pairwise_mergeSort_of_nodup id
  rw [List.map_id]
  exact nodup_eraseDups names

end CodeSurvey.Text
