import CodeSurvey.Frontend.Arm
import CodeSurvey.Frontend.JsonFile
import CodeSurvey.Frontend.Terraform
import CodeSurvey.Proofs.Ownership.Basic

/-!
# Ownership in configurations and documents

The file owns the blocks of a configuration, the entries of the sections of a template and the keys
of a document. Only the resources of a template are nested: one within another is owned by it, and
stands right after it.
-/

namespace CodeSurvey

/-! ## Terraform -/

namespace Terraform

variable (u : SourceUnit)

@[simp] theorem allPlain_useFacts (own text : String) (line : Nat) :
    AllPlain (useFacts own text line) := by
  simp [useFacts]

@[simp] theorem allPlain_callFacts (own : String) (block : Site) :
    AllPlain (callFacts u own block) := by
  simp only [callFacts, AllFacts.filterMap_iff, Option.map_eq_some_iff]
  rintro call - f ⟨name, -, rfl⟩
  simp

@[simp] theorem allPlain_attributeFacts (h : Header) (block : Site) :
    AllPlain (attributeFacts u h block) := by
  unfold attributeFacts
  split <;> simp [providerFact]

@[simp] theorem allPlain_bodyFacts (h : Header) (block : Site) :
    AllPlain (bodyFacts u h block) := by
  simp only [bodyFacts]
  split <;> simp

@[simp] theorem kind_addAttributes (h : Header) (block : Site) (d : Declaration) :
    (addAttributes u h block d).kind = d.kind := by
  unfold addAttributes
  split
  · split <;> rfl
  · split <;> rfl
  · simp
  · rfl
  · rfl
  · simp
  · rfl

theorem kind_header_ne_file (h : Header) : h.kind ≠ .file := by
  unfold Header.kind
  split <;> decide

theorem owned_localFacts (block : Site) : Owned [u.path] (localFacts u block) := by
  apply Owned.flatMap
  intro a _
  exact Owned.declare (List.mem_singleton.mpr rfl) (by simp [declaration]) (by simp)

theorem owned_blockFacts (block : Site) : Owned [u.path] (blockFacts u block) := by
  unfold blockFacts
  split
  · exact Owned.nil
  · next h _ =>
    split_ifs
    · exact owned_localFacts u block
    · refine Owned.declare (List.mem_singleton.mpr rfl) ?_ (by simp)
      rw [kind_addAttributes]
      exact kind_header_ne_file h

theorem owned_valueFacts (s : Site) : Owned [u.path] (valueFacts u s) := by
  unfold valueFacts
  cases attribute? u s with
  | none => exact Owned.nil
  | some a => exact Owned.declare (List.mem_singleton.mpr rfl) (by simp [declaration]) AllFacts.nil

/-- The facts of a Terraform configuration are in the order of ownership. -/
theorem owned_facts (path text : String) (tree : Tree) : Owned [path] (facts path text tree) := by
  apply Owned.flatMap
  intro s _
  split_ifs
  · exact owned_blockFacts ⟨path, text⟩ s
  · exact owned_valueFacts ⟨path, text⟩ s
  · exact Owned.nil

end Terraform

/-! ## JSON -/

namespace JsonFile

/-- The facts of a JSON file are in the order of ownership. -/
theorem owned_facts (path source : String) (document : Option Json) :
    Owned [path] (facts path source document) := by
  unfold facts
  rw [← List.flatMap_pure_eq_map]
  apply Owned.flatMap
  intro key _
  exact Owned.declare (List.mem_singleton.mpr rfl) (by simp [keyDeclaration]) AllFacts.nil

end JsonFile

/-! ## Resource manager templates -/

namespace Arm

@[simp] theorem allPlain_useFacts (own : String) (value : Json) (line : Nat) :
    AllPlain (useFacts own value line) := by
  simp [useFacts]

@[simp] theorem kind_entryDeclaration (title key : String) (line : Nat) (value : Json) :
    (entryDeclaration title key line value).kind = .property := by
  simp only [entryDeclaration]
  split_ifs <;> simp [Declaration.note]

theorem owned_entryFacts (path source title : String) (start : Nat) (entries : Fields) :
    Owned [path] (entryFacts path source title start entries) := by
  apply Owned.flatMap
  intro entry _
  exact Owned.declare (List.mem_singleton.mpr rfl) (by simp) (by simp)

@[simp] theorem kind_resourceDeclaration (line : Nat) (r : Resource) :
    (resourceDeclaration line r).kind = .type := by
  simp only [resourceDeclaration, Declaration.kind_addDependencies]
  split_ifs <;> simp

@[simp] theorem name_resourceDeclaration (line : Nat) (r : Resource) :
    (resourceDeclaration line r).name = r.name := by
  simp only [resourceDeclaration, Declaration.name_addDependencies]
  split_ifs <;> simp

theorem lineNumber_resourceDeclaration (line : Nat) (r : Resource) :
    (resourceDeclaration line r).lineNumber = line := by
  simp only [resourceDeclaration, Declaration.lineNumber_addDependencies]
  split_ifs <;> simp only [Declaration.lineNumber_addTag, Declaration.lineNumber_noteText?]

/-! ### Nested resources -/

/-- The declaration of a resource without anything known of it but its name. -/
def Resource.bare (r : Resource) : Fact := .declare r.owner { kind := .type, name := r.name }

/-- Resources each of which is owned by one before it, or by a name known before. -/
def Nested (known : List String) (resources : List Resource) : Prop :=
  Owned known (resources.map Resource.bare)

variable {known : List String}

theorem Nested.append_right {resources more : List Resource} (h : Nested known resources)
    (hmore : Nested known more) : Nested known (resources ++ more) := by
  unfold Nested
  rw [List.map_append]
  exact Owned.append_right h hmore

/-- A resource comes before what is declared in it. -/
theorem Nested.cons {r : Resource} {inner : List Resource} (howner : r.owner ∈ known)
    (hinner : Nested (known ++ [r.name]) inner) : Nested known (r :: inner) :=
  Owned.cons ⟨howner, nofun⟩ hinner

mutual

theorem nested_resourcesIn {known : List String} {owner : String} (howner : owner ∈ known) :
    (entries : List Json) → Nested known (resourcesIn owner entries)
  | [] => Owned.nil
  | entry :: rest => by
      rw [resourcesIn]
      exact (nested_resourceFrom howner none entry).append_right (nested_resourcesIn howner rest)

theorem nested_resourceFrom {known : List String} {owner : String} (howner : owner ∈ known)
    (symbol : Option String) :
    (entry : Json) → Nested known (resourceFrom owner symbol entry)
  | .obj fields => by
      rw [resourceFrom]
      split
      · exact Owned.nil
      · exact Nested.cons howner
          (nested_underKey (List.mem_append_right _ (List.mem_singleton.mpr rfl)) fields)
  | .null | .bool _ | .num _ | .str _ | .arr _ => by
      simp only [resourceFrom]
      exact Owned.nil

theorem nested_underKey {known : List String} {owner : String} (howner : owner ∈ known) :
    (fields : List (String × Json)) → Nested known (underKey owner fields)
  | [] => Owned.nil
  | (key, value) :: rest => by
      rw [underKey]
      split
      · exact nested_listed howner value
      · exact nested_underKey howner rest

theorem nested_listed {known : List String} {owner : String} (howner : owner ∈ known) :
    (value : Json) → Nested known (listed owner value)
  | .arr entries => by
      rw [listed]
      exact nested_resourcesIn howner entries
  | .null | .bool _ | .num _ | .str _ | .obj _ => by
      simp only [listed]
      exact Owned.nil

end

theorem nested_resourcesOf (path : String) (value : Json) :
    Nested [path] (resourcesOf path value) := by
  have hpath : path ∈ [path] := List.mem_singleton.mpr rfl
  unfold resourcesOf
  split
  · exact nested_resourcesIn hpath _
  · unfold Nested
    rw [List.map_flatMap]
    exact Owned.flatMap fun field _ => nested_resourceFrom hpath (some field.1) field.2
  · exact Owned.nil

theorem allPlain_afterResource (line : Nat) (r : Resource) :
    AllPlain ((dependencies r).map (Fact.edge r.name · .uses line) ++
      useFacts r.name (withoutInner r.value) line) := by
  simp

theorem typesDeclared_resourceFacts (line : Nat) (r : Resource) :
    typesDeclared (resourceFacts line r) = [r.name] := by
  refine (typesDeclared_declare (allPlain_afterResource line r)).trans ?_
  simp [ElementKind.IsType]

/-- Nesting is all that the facts of located resources need. -/
theorem owned_locate (source : String) (start : Nat) {resources : List Resource}
    (h : Nested known resources) :
    Owned known ((locate source start resources).flatMap fun (line, r) => resourceFacts line r) := by
  induction resources generalizing start known with
  | nil => exact Owned.nil
  | cons r rest ih =>
    cases h with
    | cons hr hrest =>
      have hfacts (line : Nat) : Owned known (resourceFacts line r) :=
        Owned.declare hr.1 (by simp) (allPlain_afterResource line r)
      rw [locate, List.flatMap_cons]
      apply (hfacts _).append
      rw [typesDeclared_resourceFacts]
      exact ih _ hrest

theorem owned_sectionFacts (path source : String) (document : Json) (title : String) :
    Owned [path] (sectionFacts path source document title) := by
  simp only [sectionFacts]
  split
  · exact Owned.nil
  · split_ifs
    · exact owned_locate source _ (nested_resourcesOf path _)
    · exact owned_entryFacts path source title _ _

/-- The facts of a template are in the order of ownership. -/
theorem owned_facts (path source : String) (document : Json) :
    Owned [path] (facts path source document) :=
  Owned.flatMap fun title _ => owned_sectionFacts path source document title

end Arm

end CodeSurvey
