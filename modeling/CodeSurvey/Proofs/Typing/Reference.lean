import CodeSurvey.Code.TypeRef
import CodeSurvey.Proofs.Text.Trim

/-!
# Names that a type reference gives

What a reference to a type names is admitted by the language: its last part is not built in, it is
not empty, and no dot stands at its ends.
-/

namespace CodeSurvey

/-- A name that can stand for a type which the language does not have built in. -/
structure TypeSystem.Admits (types : TypeSystem) (name : String) : Prop where
  not_builtin : types.isBuiltin name = false
  ne_empty : name ≠ ""
  head_ne_dot : name.toList.head? ≠ some '.'
  last_ne_dot : name.toList.getLast? ≠ some '.'

namespace TypeRef

variable {types : TypeSystem} {text name : String}

/-- The names of a reference are not empty, and no dot stands at their ends. -/
theorem bare_of_mem_names (h : name ∈ names text) :
    name ≠ "" ∧ name.toList.head? ≠ some '.' ∧ name.toList.getLast? ≠ some '.' := by
  obtain ⟨hmem, hne⟩ := List.mem_filter.mp h
  obtain ⟨m, -, rfl⟩ := List.mem_map.mp hmem
  refine ⟨?_, ?_, ?_⟩
  · simpa using hne
  · intro hhead
    exact absurd (Text.not_of_head?_trimWhere hhead) (by decide)
  · intro hlast
    exact absurd (Text.not_of_getLast?_trimWhere hlast) (by decide)

theorem admits_of_mem_names (h : name ∈ names text) (hbuiltin : types.isBuiltin name = false) :
    types.Admits name := by
  obtain ⟨hne, hhead, hlast⟩ := bare_of_mem_names h
  exact ⟨hbuiltin, hne, hhead, hlast⟩

/-- Collecting names once each adds none. -/
theorem mem_of_mem_collected {found seen : List String}
    (h : name ∈ found.foldl (fun seen t => if seen.contains t then seen else seen ++ [t]) seen) :
    name ∈ seen ∨ name ∈ found := by
  induction found generalizing seen with
  | nil => exact .inl h
  | cons t rest ih =>
    rw [List.foldl_cons] at h
    rcases ih h with hseen | hrest
    · split at hseen
      · exact .inl hseen
      · rcases List.mem_append.mp hseen with hseen | ht
        · exact .inl hseen
        · exact .inr (List.mem_cons.mpr (.inl (List.mem_singleton.mp ht)))
    · exact .inr (List.mem_cons_of_mem t hrest)

/-- The outer type of a reference is one of its names, and not built in. -/
theorem mem_names_of_outer (h : (ofText types text).outer = some name) :
    name ∈ names text ∧ types.isBuiltin name = false := by
  unfold ofText at h
  cases hnames : names text with
  | nil =>
    rw [hnames] at h
    cases h
  | cons first rest =>
    rw [hnames] at h
    by_cases hbuiltin : types.isBuiltin first = true
    · simp [hbuiltin] at h
    · simp only [hbuiltin, Bool.false_eq_true, if_false, Option.some.injEq] at h
      subst h
      exact ⟨List.mem_cons_self, Bool.not_eq_true _ ▸ hbuiltin⟩

/-- The arguments of a reference are among its names, and not built in. -/
theorem mem_names_of_mem_arguments (h : name ∈ (ofText types text).arguments) :
    name ∈ names text ∧ types.isBuiltin name = false := by
  unfold ofText at h
  cases hnames : names text with
  | nil =>
    rw [hnames] at h
    cases h
  | cons first rest =>
    rw [hnames] at h
    rcases mem_of_mem_collected h with hseen | hfound
    · cases hseen
    · obtain ⟨hrest, hbuiltin⟩ := List.mem_filter.mp hfound
      exact ⟨List.mem_cons_of_mem first hrest, by simpa using hbuiltin⟩

/-- The outer type of a reference is admitted. -/
theorem admits_outer (h : (ofText types text).outer = some name) : types.Admits name :=
  admits_of_mem_names (mem_names_of_outer h).1 (mem_names_of_outer h).2

/-- The arguments of a reference are admitted. -/
theorem admits_of_mem_arguments (h : name ∈ (ofText types text).arguments) :
    types.Admits name :=
  admits_of_mem_names (mem_names_of_mem_arguments h).1 (mem_names_of_mem_arguments h).2

@[simp] theorem forall_outer :
    (∀ name, (ofText types text).outer = some name → types.Admits name) ↔ True :=
  iff_true_intro fun _ h => admits_outer h

@[simp] theorem forall_arguments :
    (∀ name ∈ (ofText types text).arguments, types.Admits name) ↔ True :=
  iff_true_intro fun _ h => admits_of_mem_arguments h

end TypeRef

end CodeSurvey
