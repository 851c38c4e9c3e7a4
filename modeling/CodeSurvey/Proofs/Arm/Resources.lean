import CodeSurvey.Proofs.Detect.Findings

/-!
# Resources as elements and as findings

The resources of a template stand in its section of resources, and further resources in sections
within these entries. A section is a list, or an object with a symbol for each entry. The detector
finds every entry with a type and a version. The elements are those entries only that are in view: all
entries around have a type, and all sections around but the outermost one are lists. So the two agree
on a template just if none of the entries that the detector finds is out of view.
-/

namespace CodeSurvey.Arm

/-! ## The entries of a template -/

/-- An entry of a section of resources, and whether it is in view. -/
structure Slot where
  value : Json
  inView : Bool

def typeOf? (value : Json) : Option String := value.textField? "type"

mutual

/-- The entries of a list, each before those within it. -/
def slotsIn (inView : Bool) : List Json → List Slot
  | [] => []
  | value :: rest => ⟨value, inView⟩ :: slotsWithin inView value ++ slotsIn inView rest

/-- The entries under symbols, each before those within it. -/
def slotsUnder (inView : Bool) : List (String × Json) → List Slot
  | [] => []
  | (_, value) :: rest => ⟨value, inView⟩ :: slotsWithin inView value ++ slotsUnder inView rest

/-- The entries within an entry; without a type it hides them. -/
def slotsWithin (inView : Bool) : Json → List Slot
  | .obj fields => slotsBelow (inView && (typeOf? (.obj fields)).isSome) fields
  | _ => []

/-- The entries under the key for resources. -/
def slotsBelow (inView : Bool) : List (String × Json) → List Slot
  | [] => []
  | (key, value) :: rest =>
    if key = "resources" then innerSlots inView value else slotsBelow inView rest

/-- The entries of a section within an entry; an object hides them. -/
def innerSlots (inView : Bool) : Json → List Slot
  | .arr values => slotsIn inView values
  | .obj fields => slotsUnder false fields
  | _ => []

end

/-- The entries of the outermost section. -/
def slotsOf : Json → List Slot
  | .arr values => slotsIn true values
  | .obj fields => slotsUnder true fields
  | _ => []

def slots (document : Json) : List Slot :=
  ((document.field? "resources").map slotsOf).getD []

/-- The type and the version of a resource, as far as they are noted. -/
abbrev Release := Option String × Option String

/-- The type and the version in the notes on an element or a finding. -/
def noted (notes : Fields) : Release :=
  ((notes.get? "resource_type").bind Json.text?, (notes.get? "api_version").bind Json.text?)

/-- The type and the version of an entry that has both. -/
def Slot.release? (e : Slot) : Option Release := do
  let type ← typeOf? e.value
  let version ← e.value.textField? "apiVersion"
  some (some type, some version)

/-- The entry as a resource that is named by its type. -/
def Slot.typed? (e : Slot) : Option (String × Json) := (typeOf? e.value).map (·, e.value)

end CodeSurvey.Arm

/-! ## What the detector collects -/

namespace CodeSurvey.Detect.Arm

open CodeSurvey.Arm (Slot Release typeOf? slotsIn slotsUnder slotsWithin slotsBelow innerSlots
  slotsOf slots noted)

def Resource.release (r : Resource) : Release := (some r.type, some r.apiVersion)

theorem map_release_resource? (symbol : Option String) (e : Slot) :
    (resource? symbol e.value).map Resource.release = e.release? := by
  unfold resource? Slot.release? typeOf?
  cases e.value.textField? "type" with
  | none => rfl
  | some type => cases e.value.textField? "apiVersion" <;> rfl

/-- An entry and those within it are collected before the rest. -/
theorem release_append (symbol : Option String) (e : Slot) {inner rest : List Resource}
    {within after : List Slot}
    (hinner : inner.map Resource.release = within.filterMap Slot.release?)
    (hrest : rest.map Resource.release = after.filterMap Slot.release?) :
    ((resource? symbol e.value).toList ++ inner ++ rest).map Resource.release =
      (e :: within ++ after).filterMap Slot.release? := by
  rw [List.cons_append, filterMap_cons_eq_append, ← map_release_resource? symbol e,
    List.filterMap_append, ← hinner, ← hrest, List.map_append, List.map_append, List.append_assoc]
  cases resource? symbol e.value <;> rfl

mutual

theorem release_fromEntries (inView : Bool) : (values : List Json) →
    (fromEntries values).map Resource.release =
      (slotsIn inView values).filterMap Slot.release?
  | [] => by rw [fromEntries, slotsIn, List.map_nil, List.filterMap_nil]
  | value :: rest => by
      rw [fromEntries, slotsIn]
      exact release_append none ⟨value, inView⟩ (release_within inView value)
        (release_fromEntries inView rest)

theorem release_fromSymbols (inView : Bool) : (fields : List (String × Json)) →
    (fromSymbols fields).map Resource.release =
      (slotsUnder inView fields).filterMap Slot.release?
  | [] => by rw [fromSymbols, slotsUnder, List.map_nil, List.filterMap_nil]
  | (symbol, value) :: rest => by
      rw [fromSymbols, slotsUnder]
      exact release_append (some symbol) ⟨value, inView⟩ (release_within inView value)
        (release_fromSymbols inView rest)

theorem release_within (inView : Bool) : (value : Json) →
    (within value).map Resource.release = (slotsWithin inView value).filterMap Slot.release?
  | .obj fields => by
      rw [within, slotsWithin]
      exact release_underKey _ fields
  | .null | .bool _ | .num _ | .str _ | .arr _ => by
      simp only [within, slotsWithin, List.map_nil, List.filterMap_nil]

theorem release_underKey (inView : Bool) : (fields : List (String × Json)) →
    (underKey fields).map Resource.release = (slotsBelow inView fields).filterMap Slot.release?
  | [] => by rw [underKey, slotsBelow, List.map_nil, List.filterMap_nil]
  | (key, value) :: rest => by
      rw [underKey, slotsBelow]
      split
      · exact release_resourcesOf inView value
      · exact release_underKey inView rest

theorem release_resourcesOf (inView : Bool) : (value : Json) →
    (resourcesOf value).map Resource.release = (innerSlots inView value).filterMap Slot.release?
  | .arr values => by
      rw [resourcesOf, innerSlots]
      exact release_fromEntries inView values
  | .obj fields => by
      rw [resourcesOf, innerSlots]
      exact release_fromSymbols false fields
  | .null | .bool _ | .num _ | .str _ => by
      simp only [resourcesOf, innerSlots, List.map_nil, List.filterMap_nil]

end

/-- The detector collects the entries that have a type and a version, in view or not. -/
theorem map_release_resourcesOf (value : Json) :
    (resourcesOf value).map Resource.release = (slotsOf value).filterMap Slot.release? := by
  unfold slotsOf
  cases value with
  | arr values => exact (resourcesOf.eq_1 values ▸ release_fromEntries true values)
  | obj fields => exact (resourcesOf.eq_2 fields ▸ release_fromSymbols true fields)
  | null | bool | num | str => simp only [resourcesOf, List.map_nil, List.filterMap_nil]

theorem map_snd_locate (source : String) (start : Nat) (resources : List Resource) :
    (locate source start resources).map (·.2) = resources := by
  induction resources generalizing start with
  | nil => rfl
  | cons r rest ih =>
    rw [locate]
    cases r.symbol with
    | some | none => exact congrArg (r :: ·) (ih _)

/-- What is found in a template carries the types and versions of its entries. -/
theorem noted_findings (scene : Scene) :
    (declared.findings scene).map (fun f => noted f.metadata) =
      ((scene.document.map slots).getD []).filterMap Slot.release? := by
  have hnoted (r : Resource) : noted (Fields.ofList [
      ("resource_type", .str r.type), ("api_version", .str r.apiVersion),
      ("resource_name", .str (r.name.getD ""))]) = r.release := by
    simp [noted, Fields.ofList, Fields.get?_set, Json.text?, Resource.release]
  have hresources : (resources scene).map Resource.release =
      ((scene.document.map slots).getD []).filterMap Slot.release? := by
    unfold resources
    cases scene.document with
    | none => rfl
    | some document =>
      change (((document.field? "resources").map resourcesOf).getD []).map Resource.release =
        (((document.field? "resources").map slotsOf).getD []).filterMap Slot.release?
      cases document.field? "resources" with
      | none => rfl
      | some value => exact map_release_resourcesOf value
  have hfindings : declared.findings scene = (declared.scan scene).map (declared.finding scene) := rfl
  rw [← hresources, ← map_snd_locate scene.source 0 (resources scene), hfindings, List.map_map,
    List.map_map]
  refine (List.map_map).trans (List.map_congr_left ?_)
  rintro ⟨line, r⟩ _
  exact hnoted r

theorem findingsNamed_detect {r : Report} {settings : DetectorSettings} {scene : Scene}
    (hr : r.findings = []) (henabled : isDisabled settings.disabled "ARM_Resource" = false) :
    (r.detect settings bank scene).findingsNamed "ARM_Resource" =
      declared.findings { scene with margin := settings.margin } :=
  Report.findingsNamed_detect hr (by decide) List.mem_cons_self henabled

end CodeSurvey.Detect.Arm

/-! ## What is declared -/

namespace CodeSurvey.Arm

/-- The slots in view that have a type, with the type. -/
def viewed (slots : List Slot) : List (String × Json) :=
  (slots.filter (·.inView)).filterMap Slot.typed?

theorem viewed_cons (slot : Slot) (rest : List Slot) :
    viewed (slot :: rest) = (if slot.inView then slot.typed?.toList else []) ++ viewed rest := by
  unfold viewed
  split
  · next h => rw [List.filter_cons_of_pos h, filterMap_cons_eq_append]
  · next h => rw [List.filter_cons_of_neg h, List.nil_append]

theorem viewed_append (slots more : List Slot) :
    viewed (slots ++ more) = viewed slots ++ viewed more := by
  rw [viewed, List.filter_append, List.filterMap_append]
  rfl

/-- The types and values of resources, if they are in view. -/
def visible (inView : Bool) (resources : List Resource) : List (String × Json) :=
  if inView then resources.map fun r => (r.type, r.value) else []

theorem visible_nil (inView : Bool) : visible inView [] = [] := by
  cases inView <;> rfl

theorem visible_append (inView : Bool) (resources more : List Resource) :
    visible inView (resources ++ more) = visible inView resources ++ visible inView more := by
  cases inView with
  | true => exact List.map_append
  | false => rfl

mutual

theorem visible_resourcesIn (inView : Bool) (owner : String) : (values : List Json) →
    visible inView (resourcesIn owner values) = viewed (slotsIn inView values)
  | [] => by
      rw [resourcesIn, slotsIn, visible_nil]
      rfl
  | value :: rest => by
      rw [resourcesIn, slotsIn, visible_append, viewed_append,
        visible_resourceFrom inView owner none value, visible_resourcesIn inView owner rest]

theorem visible_flatMap (inView : Bool) (owner : String) : (fields : List (String × Json)) →
    visible inView (fields.flatMap fun (symbol, entry) => resourceFrom owner (some symbol) entry) =
      viewed (slotsUnder inView fields)
  | [] => by
      rw [List.flatMap_nil, slotsUnder, visible_nil]
      rfl
  | (symbol, value) :: rest => by
      rw [List.flatMap_cons, slotsUnder, visible_append, viewed_append,
        visible_resourceFrom inView owner (some symbol) value, visible_flatMap inView owner rest]

theorem visible_resourceFrom (inView : Bool) (owner : String) (symbol : Option String) :
    (value : Json) → visible inView (resourceFrom owner symbol value) =
      viewed (⟨value, inView⟩ :: slotsWithin inView value)
  | .obj fields => by
      have htype : typeOf? (.obj fields) = (fields.lookup "type").bind Json.text? := rfl
      rw [resourceFrom, slotsWithin, viewed_cons, Slot.typed?, htype]
      cases (fields.lookup "type").bind Json.text? with
      | none =>
        rw [← visible_underKey _ owner fields, Option.isSome_none, Bool.and_false]
        cases inView <;> rfl
      | some type =>
        rw [← visible_underKey _ (resourceName symbol type ((fields.lookup "name").bind Json.text?))
          fields, Option.isSome_some, Bool.and_true]
        cases inView <;> rfl
  | .null | .bool _ | .num _ | .str _ | .arr _ => by
      simp only [resourceFrom, slotsWithin, viewed_cons, visible_nil]
      cases inView <;> rfl

theorem visible_underKey (inView : Bool) (owner : String) : (fields : List (String × Json)) →
    visible inView (underKey owner fields) = viewed (slotsBelow inView fields)
  | [] => by
      rw [underKey, slotsBelow, visible_nil]
      rfl
  | (key, value) :: rest => by
      rw [underKey, slotsBelow]
      split
      · exact visible_listed inView owner value
      · exact visible_underKey inView owner rest

theorem visible_listed (inView : Bool) (owner : String) : (value : Json) →
    visible inView (listed owner value) = viewed (innerSlots inView value)
  | .arr values => by
      rw [listed, innerSlots]
      exact visible_resourcesIn inView owner values
  | .obj fields => by
      simp only [listed, innerSlots, visible_nil]
      exact visible_flatMap false owner fields
  | .null | .bool _ | .num _ | .str _ => by
      simp only [listed, innerSlots, visible_nil]
      rfl

end

/-- The slots in view that have a type are those that are declared. -/
theorem visible_resourcesOf (path : String) (value : Json) :
    (resourcesOf path value).map (fun r => (r.type, r.value)) = viewed (slotsOf value) := by
  cases value with
  | arr values => exact visible_resourcesIn true path values
  | obj fields => exact visible_flatMap true path fields
  | null | bool | num | str => rfl

/-! ## The report on a template -/

/-- The types and versions of the elements for types that carry a version. -/
def declaredReleases (r : Report) : List Release :=
  ((r.elementsOf .type).filter fun e => (e.metadata.get? "api_version").isSome).map fun e =>
    noted e.metadata

/-- The types and versions of the resources that are found. -/
def foundReleases (r : Report) : List Release :=
  (r.findingsNamed "ARM_Resource").map fun f => noted f.metadata

/-- The type and the version of a value with a type. -/
def releaseOf? (resource : String × Json) : Option Release :=
  (resource.2.textField? "apiVersion").map fun version => (some resource.1, some version)

theorem filterMap_releaseOf?_viewed (slots : List Slot) :
    (viewed slots).filterMap releaseOf? = (slots.filter (·.inView)).filterMap Slot.release? := by
  rw [viewed, List.filterMap_filterMap]
  refine List.filterMap_congr fun slot _ => ?_
  unfold Slot.typed? Slot.release?
  cases typeOf? slot.value with
  | none => rfl
  | some type => cases hversion : slot.value.textField? "apiVersion" <;> simp [releaseOf?, hversion]

theorem get?_noteText?_of_ne (d : Declaration) {key other : String} (text : Option String)
    (h : other ≠ key) : (d.noteText? key text).metadata.get? other = d.metadata.get? other := by
  cases text with
  | none => rfl
  | some t => exact Fields.get?_set_of_ne h _ _

theorem metadata_addDependencies (d : Declaration) (names : List String) :
    (d.addDependencies names).metadata = d.metadata := by
  induction names generalizing d with
  | nil => rfl
  | cons name rest ih => exact ih (d.addDependency name)

/-- The element of a resource carries the type, and the version if there is one. -/
theorem metadata_resourceDeclaration (line : Nat) (r : Resource) :
    (resourceDeclaration line r).metadata.get? "resource_type" = some (.str r.type) ∧
      (resourceDeclaration line r).metadata.get? "api_version" =
        (r.value.textField? "apiVersion").map .str := by
  have htag {c : Prop} [Decidable c] (d : Declaration) (tag : String) :
      (if c then d.addTag tag else d).metadata = d.metadata := by
    split <;> rfl
  unfold resourceDeclaration
  dsimp only
  rw [metadata_addDependencies, htag, htag]
  constructor
  · rw [get?_noteText?_of_ne _ _ (by decide), get?_noteText?_of_ne _ _ (by decide),
      get?_noteText?_of_ne _ _ (by decide)]
    rfl
  · rw [get?_noteText?_of_ne _ _ (by decide), get?_noteText?_of_ne _ _ (by decide)]
    cases r.value.textField? "apiVersion" with
    | none => rfl
    | some version => exact Fields.get?_set_self _ _ _

theorem map_snd_locate (source : String) (start : Nat) (resources : List Resource) :
    (locate source start resources).map (·.2) = resources := by
  induction resources generalizing start with
  | nil => rfl
  | cons r rest ih =>
    rw [locate]
    exact congrArg (r :: ·) (ih _)

section Facts

variable (place : Place) (source : String) (document : Json)

@[simp] theorem allQuiet_useFacts (own : String) (value : Json) (line : Nat) :
    AllQuiet (useFacts own value line) := by
  simp [useFacts]

theorem additive_sectionFacts (path title : String) :
    ∀ f ∈ sectionFacts path source document title, f.Additive := by
  unfold sectionFacts
  dsimp only
  split
  · exact List.forall_mem_nil _
  · split
    · rw [List.forall_mem_flatMap]
      intro located _
      simp only [resourceFacts, useFacts, List.cons_append, List.forall_mem_cons,
        List.forall_mem_append, List.forall_mem_map]
      simp
    · rw [entryFacts, List.forall_mem_flatMap]
      intro entry _
      simp only [useFacts, List.forall_mem_cons, List.forall_mem_map]
      simp

/-- The sections other than the resources declare no types. -/
theorem types_sectionFacts_of_ne {title : String} (h : title ≠ "resources") :
    (declared place (sectionFacts place.path source document title)).filter (·.kind = .type) =
      [] := by
  unfold sectionFacts
  dsimp only
  split
  · rfl
  · rw [if_neg h, entryFacts, declared_flatMap, List.filter_flatMap, List.flatMap_eq_nil_iff]
    intro entry _
    rw [declared_declare place (allQuiet_useFacts _ _ _)]
    simp [Declaration.toElement]

/-- The resources of the template with their lines. -/
def located (path : String) : List (Nat × Resource) :=
  ((document.field? "resources").map fun value =>
    locate source ((Text.find? (Code.quotedName "resources") source).getD 0)
      (resourcesOf path value)).getD []

theorem types_sectionFacts_resources :
    (declared place (sectionFacts place.path source document "resources")).filter (·.kind = .type) =
      (located source document place.path).map fun (line, r) =>
        (resourceDeclaration line r).toElement place.path place.context := by
  unfold sectionFacts located
  dsimp only
  cases document.field? "resources" with
  | none => rfl
  | some value =>
    have hresource (line : Nat) (r : Resource) : (declared place (resourceFacts line r)).filter
        (·.kind = .type) = [(resourceDeclaration line r).toElement place.path place.context] := by
      unfold resourceFacts
      rw [List.cons_append, declared_declare place (by simp)]
      simp [Declaration.toElement]
    simp only [Option.map_some, Option.getD_some, if_true]
    rw [declared_flatMap, List.filter_flatMap, List.map_eq_flatMap]
    exact List.flatMap_congr fun located _ => hresource located.1 located.2

theorem types_facts :
    (declared place (facts place.path source document)).filter (·.kind = .type) =
      (located source document place.path).map fun (line, r) =>
        (resourceDeclaration line r).toElement place.path place.context := by
  rw [facts, declared_flatMap, List.filter_flatMap]
  simp only [sections, List.flatMap_cons, List.flatMap_nil, types_sectionFacts_resources]
  rw [types_sectionFacts_of_ne _ _ _ (by decide), types_sectionFacts_of_ne _ _ _ (by decide),
    types_sectionFacts_of_ne _ _ _ (by decide)]
  simp only [List.nil_append, List.append_nil]

end Facts

theorem map_located (source : String) (document : Json) (path : String) :
    (located source document path).map (fun (_, r) => (r.type, r.value)) =
      viewed (slots document) := by
  unfold located slots
  cases document.field? "resources" with
  | none => rfl
  | some value =>
    rw [Option.map_some, Option.getD_some, Option.map_some, Option.getD_some,
      ← visible_resourcesOf path value]
    conv_rhs => rw [← map_snd_locate source
      ((Text.find? (Code.quotedName "resources") source).getD 0) (resourcesOf path value),
      List.map_map]
    rfl

section Survey

variable (settings : Settings) (fs : FileSystem) (source : Source) (document : Json)

theorem types_surveyTemplate :
    (surveyTemplate settings fs source document).elementsOf .type =
      (located source.content document source.path).map fun (line, r) =>
        (resourceDeclaration line r).toElement source.path (source.place settings fs).context := by
  have hadditive : ∀ f ∈ facts source.path source.content document, f.Additive := by
    rw [facts, List.forall_mem_flatMap]
    intro title _
    exact additive_sectionFacts source.content document source.path title
  unfold surveyTemplate
  dsimp only
  rw [Report.elementsOf, Report.elements_detect, Report.elements_recordAll _ _ hadditive,
    List.filter_append]
  refine (congrArg₂ (· ++ ·) ?_
    (types_facts (source.place settings fs) source.content document)).trans (List.nil_append _)
  simp [Report.opening, Report.updateFile, Report.modifyFirst, Element.update, Declaration.toElement,
    fileDeclaration]

/-- The elements that carry a version are those of the entries in view that have a type and one. -/
theorem declaredReleases_surveyTemplate :
    declaredReleases (surveyTemplate settings fs source document) =
      ((slots document).filter (·.inView)).filterMap Slot.release? := by
  rw [← filterMap_releaseOf?_viewed, ← map_located source.content document source.path,
    declaredReleases, types_surveyTemplate, List.filter_map, List.map_map, ← List.filterMap_eq_map,
    List.filterMap_filter, List.filterMap_map]
  refine List.filterMap_congr fun entry _ => ?_
  obtain ⟨line, r⟩ := entry
  obtain ⟨htype, hversion⟩ := metadata_resourceDeclaration line r
  simp only [Function.comp_apply, Declaration.toElement, noted, htype, hversion, releaseOf?]
  cases r.value.textField? "apiVersion" <;> rfl

/-- The findings are those of all entries that have a type and a version. -/
theorem foundReleases_surveyTemplate
    (henabled : isDisabled settings.detectors.disabled "ARM_Resource" = false) :
    foundReleases (surveyTemplate settings fs source document) =
      (slots document).filterMap Slot.release? := by
  unfold surveyTemplate
  dsimp only
  rw [foundReleases, Detect.Arm.findingsNamed_detect ?_ henabled]
  · exact Detect.Arm.noted_findings _
  · exact (((Report.undetected_opening _ _ _).updateFile _).recordAll _ _).findings

theorem survey_eq_surveyTemplate {source : Source} {document : Json}
    (hlive : source.cancelled = false) (hparse : Json.parse? source.content = some document)
    (htemplate : isTemplate document = true) :
    survey settings fs source = surveyTemplate settings fs source document := by
  simp only [survey, hlive, hparse, htemplate, if_true, Bool.false_eq_true, if_false]

end Survey

/-- On a template, the elements with a version are the entries in view that have a type and a version,
and the findings are all entries that have them, in view or not; both are in the order of the
document. So the two agree, as multisets and hence one by one, just if every entry with a type and a
version is in view: if it stands neither within an entry without a type nor in a section under symbols
within another entry. -/
theorem releases_by_view (settings : Settings) (fs : FileSystem) (source : Source) {document : Json}
    (hlive : source.cancelled = false) (hparse : Json.parse? source.content = some document)
    (htemplate : isTemplate document = true)
    (henabled : isDisabled settings.detectors.disabled "ARM_Resource" = false) :
    declaredReleases (survey settings fs source) =
        ((slots document).filter (·.inView)).filterMap Slot.release? ∧
      foundReleases (survey settings fs source) = (slots document).filterMap Slot.release? ∧
      ((declaredReleases (survey settings fs source)).Perm
          (foundReleases (survey settings fs source)) ↔
        ∀ slot ∈ slots document, slot.release?.isSome → slot.inView) := by
  rw [survey_eq_surveyTemplate settings fs hlive hparse htemplate,
    declaredReleases_surveyTemplate settings fs source document,
    foundReleases_surveyTemplate settings fs source document henabled]
  exact ⟨rfl, rfl, perm_filterMap_filter_iff⟩

/-- A template with a resource under a symbol, a list within it, and in the list an entry without a
version that has an entry of its own. -/
def mixedTemplate : Source where
  path := "main.json"
  content :=
    "\x7b\"$schema\":\"\",\"resources\":\x7b\"a\":\x7b\"apiVersion\":\"1\",\"resources\":[" ++
      "\x7b\"resources\":[\x7b\"apiVersion\":\"3\",\"type\":\"C\"\x7d]," ++
      "\"type\":\"B\"\x7d],\"type\":\"A\"\x7d\x7d\x7d"

def mixedDocument : Json :=
  .obj [("$schema", .str ""), ("resources", .obj [("a", .obj [("apiVersion", .str "1"),
    ("resources", .arr [.obj [
      ("resources", .arr [.obj [("apiVersion", .str "3"), ("type", .str "C")]]),
      ("type", .str "B")]]),
    ("type", .str "A")])])]

theorem releases_mixedTemplate :
    Json.parse? mixedTemplate.content = some mixedDocument ∧ isTemplate mixedDocument = true ∧
      foundReleases (survey {} {} mixedTemplate) = [(some "A", some "1"), (some "C", some "3")] ∧
      (declaredReleases (survey {} {} mixedTemplate)).Perm
        (foundReleases (survey {} {} mixedTemplate)) := by
  have hparse : Json.parse? mixedTemplate.content = some mixedDocument := by cbv
  have htemplate : isTemplate mixedDocument = true := by decide +kernel
  obtain ⟨-, hfound, hagree⟩ := releases_by_view {} {} mixedTemplate rfl hparse htemplate
    (by decide +kernel)
  exact ⟨hparse, htemplate, hfound.trans (by decide +kernel), hagree.mpr (by decide +kernel)⟩

-- an entry without a type hides what is within it
example : (slots (.obj [("resources", .arr [.obj [("resources", .arr [.obj [
    ("apiVersion", .str "1"), ("type", .str "A")]])]])])).map (fun e => (e.release?, e.inView)) =
    [(none, true), (some (some "A", some "1"), false)] := by decide +kernel

/-- A template in which a section within an entry has its entries under symbols. -/
def keyedTemplate : Source where
  path := "t.json"
  content :=
    "\x7b\"$schema\": \"s\", \"resources\": [\n \x7b\"type\": \"A\", \"apiVersion\": \"1\", " ++
      "\"resources\": \x7b\n  \"b\": \x7b\"type\": \"B\", \"apiVersion\": \"2\"\x7d\x7d\x7d]\x7d"

def keyedDocument : Json :=
  .obj [("$schema", .str "s"), ("resources", .arr [.obj [("apiVersion", .str "1"),
    ("resources", .obj [("b", .obj [("apiVersion", .str "2"), ("type", .str "B")])]),
    ("type", .str "A")]])]

/-- The entry under the symbol is found but not declared. -/
theorem releases_keyedTemplate_ne :
    Json.parse? keyedTemplate.content = some keyedDocument ∧ isTemplate keyedDocument = true ∧
      declaredReleases (survey {} {} keyedTemplate) = [(some "A", some "1")] ∧
      foundReleases (survey {} {} keyedTemplate) = [(some "A", some "1"), (some "B", some "2")] ∧
      ¬ (declaredReleases (survey {} {} keyedTemplate)).Perm
        (foundReleases (survey {} {} keyedTemplate)) := by
  have hparse : Json.parse? keyedTemplate.content = some keyedDocument := by cbv
  have htemplate : isTemplate keyedDocument = true := by decide +kernel
  have hdeclared : declaredReleases (survey {} {} keyedTemplate) = [(some "A", some "1")] := by
    rw [survey_eq_surveyTemplate {} {} rfl hparse htemplate, declaredReleases_surveyTemplate]
    decide +kernel
  have hfound : foundReleases (survey {} {} keyedTemplate) =
      [(some "A", some "1"), (some "B", some "2")] := by
    rw [survey_eq_surveyTemplate {} {} rfl hparse htemplate,
      foundReleases_surveyTemplate _ _ _ _ (by decide +kernel)]
    decide +kernel
  refine ⟨hparse, htemplate, hdeclared, hfound, ?_⟩
  intro hperm
  have hlength := hperm.length_eq
  rw [hdeclared, hfound] at hlength
  cases hlength

end CodeSurvey.Arm
