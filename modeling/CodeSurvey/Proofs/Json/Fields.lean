import CodeSurvey.Json.Reader
import CodeSurvey.Proofs.Lookup

/-!
# Fields in ascending order

The keys of an object are strictly ascending, however they are listed: each field is put at its place
among those before it, and a key that comes again replaces the value it had.
-/

namespace CodeSurvey

namespace Fields

def Ascending (fields : Fields) : Prop := (fields.map (·.1)).Pairwise (· < ·)

theorem mem_keys_set (key : String) (value : Json) (fields : Fields) (k : String) :
    k ∈ (fields.set key value).map (·.1) ↔ k = key ∨ k ∈ fields.map (·.1) := by
  rw [mem_keys_iff, mem_keys_iff]
  change ((fields.set key value).get? k).isSome ↔ k = key ∨ (fields.get? k).isSome
  rw [get?_set]
  split
  · next h => simp [h]
  · next h => simp [h]

theorem Ascending.set {fields : Fields} (h : fields.Ascending) (key : String) (value : Json) :
    (fields.set key value).Ascending := by
  unfold Ascending at h ⊢
  fun_induction Fields.set key value fields with
  | case1 => simp
  | case2 k v rest hlt =>
    refine List.pairwise_cons.mpr ⟨?_, h⟩
    intro other hother
    rcases List.mem_cons.mp hother with rfl | hother
    · exact hlt
    · exact lt_trans hlt ((List.pairwise_cons.mp h).1 other hother)
  | case3 v rest hlt => exact h
  | case4 k v rest hlt hne ih =>
    obtain ⟨hk, hrest⟩ := List.pairwise_cons.mp h
    refine List.pairwise_cons.mpr ⟨?_, ih hrest⟩
    intro other hother
    rcases (mem_keys_set key value rest other).mp hother with rfl | hother
    · exact lt_of_le_of_ne (not_lt.mp hlt) (Ne.symm hne)
    · exact hk other hother

theorem Ascending.foldl_set {fields : Fields} (h : fields.Ascending)
    (entries : List (String × Json)) :
    Ascending (entries.foldl (fun fields e => Fields.set e.1 e.2 fields) fields) := by
  induction entries generalizing fields with
  | nil => exact h
  | cons e rest ih => exact ih (h.set e.1 e.2)

theorem ascending_ofList (entries : List (String × Json)) : (ofList entries).Ascending :=
  Ascending.foldl_set (show Ascending [] from List.Pairwise.nil) entries

end Fields

end CodeSurvey
