import CodeSurvey.Json.Basic
import Mathlib

/-!
# Looking up keys

Tables of front ends and the fields of objects are lists of pairs, in which the first pair with a key
counts. Each way of changing such a list is described by what is found in it afterwards.
-/

namespace CodeSurvey

section Lookup

variable {α : Type}

theorem lookup_cons_ite (key : String) (value : α) (entries : List (String × α)) (e : String) :
    ((key, value) :: entries).lookup e = if e = key then some value else entries.lookup e := by
  rw [List.lookup_cons]
  by_cases he : e = key
  · simp [he]
  · rw [beq_eq_false_iff_ne.mpr he, if_neg he]

theorem lookup_filter_ne (key : String) (entries : List (String × α)) (e : String) :
    (entries.filter (·.1 != key)).lookup e = if e = key then none else entries.lookup e := by
  induction entries with
  | nil => simp
  | cons entry rest ih =>
    obtain ⟨k, v⟩ := entry
    by_cases hk : k = key
    · subst hk
      rw [List.filter_cons_of_neg (by simp), ih, lookup_cons_ite]
      split <;> rfl
    · rw [List.filter_cons_of_pos (by simpa using hk), lookup_cons_ite, lookup_cons_ite, ih]
      by_cases he : e = k
      · rw [if_pos he, if_neg (by rintro rfl; exact hk he.symm), if_pos he]
      · rw [if_neg he, if_neg he]

theorem mem_keys_iff (entries : List (String × α)) (e : String) :
    e ∈ entries.map (·.1) ↔ (entries.lookup e).isSome := by
  induction entries with
  | nil => simp
  | cons entry rest ih =>
    rw [List.map_cons, List.mem_cons, ih, lookup_cons_ite]
    by_cases he : e = entry.1
    · simp [he]
    · simp [he]

end Lookup

namespace Fields

/-- Setting a key changes what is found under that key only. The fields need not be in order. -/
theorem get?_set (key : String) (value : Json) (fields : Fields) (e : String) :
    (fields.set key value).get? e = if e = key then some value else fields.get? e := by
  simp only [get?]
  fun_induction set key value fields with
  | case1 | case2 => rw [lookup_cons_ite]
  | case3 v rest h =>
    rw [lookup_cons_ite, lookup_cons_ite]
    split <;> rfl
  | case4 k v rest h hne ih =>
    rw [lookup_cons_ite, lookup_cons_ite, ih]
    by_cases he : e = k
    · rw [if_pos he, if_neg (by rintro rfl; exact hne he), if_pos he]
    · rw [if_neg he, if_neg he]

theorem get?_set_self (key : String) (value : Json) (fields : Fields) :
    (fields.set key value).get? key = some value := by
  rw [get?_set, if_pos rfl]

theorem get?_set_of_ne {key e : String} (h : e ≠ key) (value : Json) (fields : Fields) :
    (fields.set key value).get? e = fields.get? e := by
  rw [get?_set, if_neg h]

end Fields

end CodeSurvey
