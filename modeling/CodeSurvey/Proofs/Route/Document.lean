import CodeSurvey.Proofs.Json.Texts
import CodeSurvey.Proofs.Route.Builtin

/-!
# Templates and documents

A JSON file is tried as a template first and as a document after that. The two fit together: the
front end for templates gives either a whole report or nothing at all, so that the fallback finds
nothing to lose, and a file that holds no template is described by the keys of its object alone.
-/

namespace CodeSurvey

/-! ## What a file is labelled with -/

/-- The kind of an element and the language noted on it. -/
def Element.label (e : Element) : ElementKind × Option Json := (e.kind, e.metadata.get? "language")

theorem Element.label_update_note {key : String} (h : key ≠ "language") (value : Json)
    (e : Element) : (e.update (·.note key value)).label = e.label :=
  congrArg (e.kind, ·) (Fields.get?_set_of_ne h.symm value e.metadata)

namespace Report

variable {place : Place}

def labels (r : Report) : List (ElementKind × Option Json) := r.elements.map Element.label

/-- A fact may add a label, and leaves those that are there. -/
theorem labels_record (r : Report) (f : Fact) : r.labels <+: (r.record place f).labels := by
  cases f with
  | declare owner d =>
    simp only [labels, record, relate, addRelation, addElement, List.map_append]
    exact List.prefix_append _ _
  | relate source target kind line properties => exact List.prefix_rfl
  | inject owner target line properties =>
    have hsame : (r.record place (.inject owner target line properties)).labels = r.labels := by
      apply map_modifyLast
      intro e
      rfl
    rw [hsame]
  | close position content lastLine =>
    have hsame : (r.record place (.close position content lastLine)).labels = r.labels := by
      apply map_modify
      intro e
      exact Element.label_update_note (by decide) _ { e with content := content }
    rw [hsame]

theorem labels_recordAll (r : Report) (facts : List Fact) :
    r.labels <+: (r.recordAll place facts).labels := by
  induction facts generalizing r with
  | nil => exact List.prefix_rfl
  | cons f rest ih => exact (r.labels_record f).trans (ih (r.record place f))

theorem labels_updateFile {f : Declaration → Declaration} (r : Report)
    (h : ∀ e : Element, (e.update f).label = e.label) : (r.updateFile f).labels = r.labels :=
  map_modifyFirst h _ _

theorem labels_attachFindings (r : Report) : r.attachFindings.labels = r.labels :=
  r.labels_updateFile (Element.label_update_note (by decide) _)

/-- Attaching findings changes the first element if that is the file. -/
theorem elements_attachFindings {r : Report} {file : Element} {rest : List Element}
    (h : r.elements = file :: rest) (hkind : file.kind = .file) :
    r.attachFindings.elements =
      file.update (·.note "detected_patterns" (.arr (r.findings.map Finding.toMetadata))) ::
        rest := by
  rw [attachFindings, updateFile, h, modifyFirst, if_pos (by simpa using hkind)]

/-- Declarations by one owner add their elements and the relations that define them. -/
theorem recordAll_declare {α : Type} (r : Report) (owner : String) (declaration : α → Declaration)
    (items : List α) :
    r.recordAll place (items.map fun x => .declare owner (declaration x)) =
      { r with
        elements := r.elements ++
          items.map fun x => (declaration x).toElement place.path place.context
        relations := r.relations ++ items.map fun x =>
          { source := owner, target := (declaration x).name, kind := .defines
            context := place.context
            properties := [("line_number", .nat (declaration x).lineNumber)] } } := by
  induction items generalizing r with
  | nil => simp [recordAll]
  | cons x rest ih =>
    have hrest := ih (r.record place (.declare owner (declaration x)))
    rw [List.map_cons, recordAll, List.foldl_cons]
    rw [recordAll] at hrest
    rw [hrest]
    simp only [record, relate, addRelation, addElement, List.map_cons, List.append_assoc,
      List.singleton_append]
    rfl

end Report

/-! ## Templates -/

namespace Arm

/-- What the schema of a template mentions. -/
def schemaMarks : List String :=
  ["deploymenttemplate", "deploymentparameters", "managedapplication"]

/-- A text that holds a template: a JSON object that names a schema, and either the schema mentions
a mark, in any case of letters, or the object has resources or parameters. -/
def HoldsTemplate (content : String) : Prop :=
  ∃ (fields : Fields) (schema : Json),
    Json.parse? content = some (.obj fields) ∧ fields.get? "$schema" = some schema ∧
    ((∃ text, schema = .str text ∧
        ∃ mark ∈ schemaMarks, Text.Occurs mark (Text.lowerAscii text)) ∨
      fields.has "resources" = true ∨ fields.has "parameters" = true)

/-- A schema that is no text mentions nothing. -/
theorem containsAny_schemaMarks_iff (schema : Json) :
    Text.containsAny schemaMarks (Text.lowerAscii (schema.text?.getD "")) = true ↔
      ∃ text, schema = .str text ∧
        ∃ mark ∈ schemaMarks, Text.Occurs mark (Text.lowerAscii text) := by
  have hempty : Text.containsAny schemaMarks (Text.lowerAscii "") = false := by decide
  cases schema with
  | str text => simp [Json.text?, Text.containsAny, Text.contains_iff_occurs]
  | null | bool b | num n | arr items | obj fields => simp [Json.text?, hempty]

theorem isTemplate_obj_iff (fields : Fields) :
    isTemplate (.obj fields) = true ↔
      ∃ schema, fields.get? "$schema" = some schema ∧
        ((∃ text, schema = .str text ∧
            ∃ mark ∈ schemaMarks, Text.Occurs mark (Text.lowerAscii text)) ∨
          fields.has "resources" = true ∨ fields.has "parameters" = true) := by
  have hfield (key : String) : Json.field? key (.obj fields) = fields.get? key := rfl
  simp only [isTemplate, hfield]
  cases fields.get? "$schema" with
  | none => simp
  | some schema =>
    have hmarks := containsAny_schemaMarks_iff schema
    simp only [schemaMarks] at hmarks
    simp only [Bool.or_eq_true, hmarks, Option.some.injEq, exists_eq_left', schemaMarks,
      Fields.has, or_assoc]

/-- A text holds a template if the document read from it is one. -/
theorem holdsTemplate_iff (content : String) :
    HoldsTemplate content ↔ ∃ document, Json.parse? content = some document ∧
      isTemplate document = true := by
  constructor
  · rintro ⟨fields, schema, hparse, hschema, hmarks⟩
    exact ⟨.obj fields, hparse, (isTemplate_obj_iff fields).mpr ⟨schema, hschema, hmarks⟩⟩
  · rintro ⟨document, hparse, htemplate⟩
    cases document with
    | obj fields =>
      obtain ⟨schema, hschema, hmarks⟩ := (isTemplate_obj_iff fields).mp htemplate
      exact ⟨fields, schema, hparse, hschema, hmarks⟩
    | null | bool b | num n | str s | arr items => cases htemplate

instance (content : String) : Decidable (HoldsTemplate content) :=
  decidable_of_iff ((Json.parse? content).any isTemplate = true) (by
    rw [holdsTemplate_iff, Option.any_eq_true])

variable (settings : Settings) (fs : FileSystem) {source : Source}

theorem survey_of_holdsTemplate (hlive : source.cancelled = false)
    (h : HoldsTemplate source.content) :
    ∃ document, survey settings fs source = surveyTemplate settings fs source document := by
  obtain ⟨document, hparse, htemplate⟩ := (holdsTemplate_iff source.content).mp h
  exact ⟨document, by simp [survey, hlive, hparse, htemplate]⟩

/-- What is no template gives nothing but its path. -/
theorem survey_of_not_holdsTemplate (hlive : source.cancelled = false)
    (h : ¬ HoldsTemplate source.content) :
    survey settings fs source = { filePath := source.path } := by
  rw [holdsTemplate_iff] at h
  rw [survey, hlive, if_neg Bool.false_ne_true]
  split
  · rfl
  · next document hparse =>
    rw [if_neg fun htemplate => h ⟨document, hparse, htemplate⟩]

/-- The first element of the report on a template is the file, labelled with the language. -/
theorem label_surveyTemplate (source : Source) (document : Json) :
    [(ElementKind.file, some (Json.str "ARM"))] <+:
      (surveyTemplate settings fs source document).labels := by
  obtain ⟨errors, hdetect⟩ := Report.detect_eq
    (((Report.opening (source.place settings fs) source.content "ARM").updateFile fun d =>
      (d.noteText? "schema" (document.textField? "$schema")).noteText? "contentVersion"
        (document.textField? "contentVersion")).recordAll (source.place settings fs)
          (facts source.path source.content document)) settings.detectors Detect.Arm.bank
    { filePath := source.path, context := (source.place settings fs).context
      source := source.content, document := document }
  rw [surveyTemplate, hdetect]
  refine List.IsPrefix.trans ?_ (Report.labels_recordAll _ _)
  rw [Report.labels_updateFile]
  · simp [Report.labels, Report.opening, Element.label, Declaration.toElement, fileDeclaration,
      Fields.ofList, Fields.get?_set]
  · intro e
    cases document.textField? "$schema" with
    | none =>
      cases document.textField? "contentVersion" with
      | none => rfl
      | some version => exact Element.label_update_note (by decide) _ e
    | some schema =>
      cases document.textField? "contentVersion" with
      | none => exact Element.label_update_note (by decide) _ e
      | some version =>
        exact (Element.label_update_note (by decide) _ _).trans
          (Element.label_update_note (by decide) _ e)

end Arm

/-! ## Documents -/

namespace JsonFile

/-- Whether the text is a JSON object with a key. -/
def HasTopKey (content key : String) : Prop :=
  ∃ fields, Json.parse? content = some (.obj fields) ∧ key ∈ fields.map (·.1)

theorem mem_topKeys_iff (content key : String) :
    key ∈ topKeys (Json.parse? content) ↔ HasTopKey content key := by
  rw [HasTopKey, topKeys]
  cases Json.parse? content with
  | none => simp
  | some document => cases document <;> simp [Json.fields?]

theorem pairwise_topKeys (content : String) :
    (topKeys (Json.parse? content)).Pairwise (· < ·) := by
  cases hparse : Json.parse? content with
  | none => exact List.Pairwise.nil
  | some document =>
    cases document with
    | obj fields => exact Json.ascending_of_parse? hparse
    | null | bool b | num n | str s | arr items => exact List.Pairwise.nil

def keyElement (path context content key : String) : Element :=
  (keyDeclaration content key).toElement path context

@[simp] theorem map_name_keyElement (path context content : String) (keys : List String) :
    (keys.map (keyElement path context content)).map (·.name) = keys := by
  rw [List.map_map]
  exact List.map_id keys

/-- The definition of a key by the file. -/
def keyRelation (path context content key : String) : Relation where
  source := path
  target := key
  kind := .defines
  context := context
  properties := [("line_number", .nat (keyDeclaration content key).lineNumber)]

/-- The report on a document: the file, one element for each key and the definitions of the keys. -/
theorem survey_live (settings : Settings) (fs : FileSystem) {source : Source}
    (hlive : source.cancelled = false) :
    ∃ file : Element, file.label = (.file, some (.str "JSON")) ∧
      survey settings fs source =
        { filePath := source.path
          elements := file :: (topKeys (Json.parse? source.content)).map
            (keyElement source.path file.context source.content)
          relations := (topKeys (Json.parse? source.content)).map
            (keyRelation source.path file.context source.content) } := by
  let place := source.place settings fs
  let document := Json.parse? source.content
  let file : Element :=
    ((fileDeclaration source.path source.content "JSON").toElement source.path place.context).update
      fun d => (d.note "valid_json" (.bool document.isSome)).note "top_level_keys"
        (.strings (topKeys document))
  refine ⟨file, ?_, ?_⟩
  · simp [file, Element.label, Element.update, Declaration.note, Declaration.toElement,
      fileDeclaration, Fields.ofList, Fields.get?_set]
  · rw [survey, hlive, if_neg Bool.false_ne_true]
    exact Report.recordAll_declare _ source.path (keyDeclaration source.content) (topKeys document)

/-- What the report on a document says once findings, of which there are none, are attached. -/
theorem attached_survey (settings : Settings) (fs : FileSystem) {source : Source}
    (hlive : source.cancelled = false) {file : Element} {members : List Element}
    (helements : (survey settings fs source).attachFindings.elements = file :: members) :
    let r := (survey settings fs source).attachFindings
    file.metadata.get? "language" = some (.str "JSON") ∧ r.errors = [] ∧ r.findings = [] ∧
      (∀ m ∈ members, m.kind = .property) ∧
      (members.map (·.name)).Pairwise (· < ·) ∧
      (∀ key, key ∈ members.map (·.name) ↔ HasTopKey source.content key) ∧
      r.relations = members.map fun m =>
        { source := source.path, target := m.name, kind := .defines, context := file.context
          properties := [("line_number", .nat m.lineNumber)] } := by
  obtain ⟨file', hlabel, hsurvey⟩ := survey_live settings fs hlive
  have hattached := Report.elements_attachFindings (congrArg Report.elements hsurvey)
    (congrArg Prod.fst hlabel)
  rw [helements] at hattached
  obtain ⟨hfile, rfl⟩ := List.cons.inj hattached
  have hlanguage : file.label = file'.label := by
    rw [hfile]
    exact Element.label_update_note (by decide) _ file'
  rw [hlabel] at hlanguage
  have hcontext : file.context = file'.context := by rw [hfile]; rfl
  refine ⟨congrArg Prod.snd hlanguage, congrArg Report.errors hsurvey,
    congrArg Report.findings hsurvey, ?_, ?_, ?_, ?_⟩
  · intro m hm
    obtain ⟨key, -, rfl⟩ := List.mem_map.mp hm
    rfl
  · rw [map_name_keyElement]
    exact pairwise_topKeys source.content
  · intro key
    rw [map_name_keyElement]
    exact mem_topKeys_iff source.content key
  · refine (congrArg Report.relations hsurvey).trans ?_
    rw [hcontext, List.map_map]
    rfl

end JsonFile

/-! ## Routing a JSON file -/

namespace Registry

/-- A JSON file is tried as a template, then as a document. -/
theorem dispatch_json (settings : Settings) {path : String} (h : extension? path = some "json") :
    (builtin settings).dispatch path =
      .content (Arm.frontend settings) (some (JsonFile.frontend settings)) := by
  have hproject : namesExtension ["sln", "csproj", "vbproj", "fsproj"] "json" = false := by
    decide +kernel
  have hjson : namesExtension ["json"] "json" = true := by decide +kernel
  rw [builtin_eq, dispatch_ofHistory _ _ h]
  simp only [builtinHistory, lastChoice_append, lastFallback_append, Registration.firstChoice?,
    Registration.fallback?, Project.frontend, Arm.frontend, JsonFile.frontend, hproject, hjson]
  rfl

end Registry

theorem extension?_json {path e : String} (hext : extensionAsWritten? path = some e)
    (hjson : Text.lowerAscii e = "json") : extension? path = some "json" := by
  have hlower : Text.lower "json" = "json" := by decide +kernel
  rw [extension?, hext, Option.map_some, ← Text.lower_lowerAscii, hjson, hlower]

namespace Workspace

/-- A request whose content is there is surveyed with that content. -/
theorem route_of_contentOf (w : Workspace) {request : Request} {content : String}
    {tree : Option Tree} (hlive : request.cancelled = false)
    (hcontent : w.contentOf request = .ok (content, tree)) :
    w.route request =
      (w.survey (w.sourceOf request.path content request.context tree)).attachFindings := by
  rw [route, hlive, if_neg Bool.false_ne_true, hcontent]
  rfl

variable (settings : Settings) (files : FileSystem) {source : Source}

section Json

variable (hsize : Text.byteLength source.content.toList ≤ settings.router.maxFileSize)
  (hext : extension? source.path = some "json")

include hsize hext

theorem survey_json_file :
    (builtin settings files).survey source =
      (Arm.survey settings files source).orFallback (some (JsonFile.survey settings files source)) := by
  have hdispatch : (builtin settings files).dispatch source =
      .content (Arm.frontend settings) (some (JsonFile.frontend settings)) :=
    (if_neg (Nat.not_lt.mpr hsize)).trans (Registry.dispatch_json settings hext)
  rw [survey, hdispatch]
  rfl

/-- A template is not left to the fallback. -/
theorem survey_json_template (hlive : source.cancelled = false)
    (h : Arm.HoldsTemplate source.content) :
    (builtin settings files).survey source = Arm.survey settings files source ∧
      [(ElementKind.file, some (Json.str "ARM"))] <+: (Arm.survey settings files source).labels := by
  have hlabel : [(ElementKind.file, some (Json.str "ARM"))] <+:
      (Arm.survey settings files source).labels := by
    obtain ⟨document, hdocument⟩ := Arm.survey_of_holdsTemplate settings files hlive h
    rw [hdocument]
    exact Arm.label_surveyTemplate settings files source document
  have hne : (Arm.survey settings files source).elements ≠ [] := by
    intro hnil
    rw [Report.labels, hnil] at hlabel
    simp at hlabel
  rw [survey_json_file settings files hsize hext, Report.orFallback_of_ne_nil hne]
  exact ⟨rfl, hlabel⟩

/-- A document is left to the fallback, with nothing to add to its report. -/
theorem survey_json_document (hlive : source.cancelled = false)
    (h : ¬ Arm.HoldsTemplate source.content) :
    (builtin settings files).survey source = JsonFile.survey settings files source := by
  have hnothing := Arm.survey_of_not_holdsTemplate settings files hlive h
  rw [survey_json_file settings files hsize hext, hnothing, Report.orFallback_of_eq_nil rfl]
  simp

end Json

/-- Every routed JSON file is described by what its text holds. The file is labelled as a template if
the text holds one and as a document otherwise; a document gives no errors and no findings, one
property for each key of its object in ascending order, and the definitions of these properties.
Nothing that the front end for templates finds is lost to the fallback. -/
theorem route_json_file (request : Request) {content e : String} {tree : Option Tree}
    (hlive : request.cancelled = false)
    (hcontent : (builtin settings files).contentOf request = .ok (content, tree))
    (hsize : Text.byteLength content.toList ≤ settings.router.maxFileSize)
    (hext : extensionAsWritten? request.path = some e) (hjson : Text.lowerAscii e = "json") :
    let w := builtin settings files
    let source := w.sourceOf request.path content request.context tree
    let r := w.route request
    ∃ file members, r.elements = file :: members ∧ file.kind = .file ∧
      (∀ m ∈ members, m.kind ≠ .file) ∧
      (file.metadata.get? "language" = some (.str "ARM") ↔ Arm.HoldsTemplate content) ∧
      (¬ Arm.HoldsTemplate content →
        file.metadata.get? "language" = some (.str "JSON") ∧ r.errors = [] ∧ r.findings = [] ∧
        (∀ m ∈ members, m.kind = .property) ∧
        (members.map (·.name)).Pairwise (· < ·) ∧
        (∀ key, key ∈ members.map (·.name) ↔ JsonFile.HasTopKey content key) ∧
        r.relations = members.map fun m =>
          { source := request.path, target := m.name, kind := .defines, context := file.context
            properties := [("line_number", .nat m.lineNumber)] }) ∧
      r = (w.survey source).attachFindings ∧
      (Arm.survey settings files source).elements ⊆ (w.survey source).elements ∧
      (Arm.survey settings files source).relations ⊆ r.relations ∧
      (Arm.survey settings files source).findings ⊆ r.findings := by
  intro w source r
  have hjsonExt : extension? source.path = some "json" := extension?_json hext hjson
  have hroute : r = (w.survey source).attachFindings := w.route_of_contentOf hlive hcontent
  have hlabels : r.labels = (w.survey source).labels := by
    rw [hroute, Report.labels_attachFindings]
  have hstamped : r.Stamped (source.place settings files) (Digest.ofText content) := by
    rw [hroute, survey_json_file settings files hsize hjsonExt]
    exact (stamped_template settings files source).attachFindings
  obtain ⟨file, members, helements, hkind, -, -, hmembers, -⟩ := hstamped.elements
  have hfile : r.labels = file.label :: members.map Element.label := by
    rw [Report.labels, helements, List.map_cons]
  refine ⟨file, members, helements, hkind, hmembers, ?_⟩
  by_cases htemplate : Arm.HoldsTemplate content
  · obtain ⟨hsurvey, hlabel⟩ := survey_json_template settings files hsize hjsonExt rfl htemplate
    rw [← hsurvey, ← hlabels, hfile, List.cons_prefix_cons] at hlabel
    have hlanguage : file.metadata.get? "language" = some (.str "ARM") :=
      (congrArg Prod.snd hlabel.1).symm
    refine ⟨iff_of_true hlanguage htemplate, fun h => absurd htemplate h, hroute, ?_, ?_, ?_⟩
    · rw [← hsurvey]
      exact List.Subset.refl _
    · rw [← hsurvey, hroute]
      exact List.Subset.refl _
    · rw [← hsurvey, hroute]
      exact List.Subset.refl _
  · have hsurvey := survey_json_document settings files hsize hjsonExt rfl htemplate
    have hnothing : Arm.survey settings files source = { filePath := source.path } :=
      Arm.survey_of_not_holdsTemplate settings files rfl htemplate
    have hdocument : r = (JsonFile.survey settings files source).attachFindings := by
      rw [hroute, ← hsurvey]
    have hreport := JsonFile.attached_survey settings files rfl (hdocument ▸ helements)
    rw [← hdocument] at hreport
    refine ⟨iff_of_false ?_ htemplate, fun _ => hreport, hroute, ?_⟩
    · rw [hreport.1]
      simp
    · rw [hnothing]
      exact ⟨List.nil_subset _, List.nil_subset _, List.nil_subset _⟩

/-- A template under an extension in capitals, and an object with a schema that is not of templates. -/
theorem route_json_template_and_document :
    let template := "\x7b\"$schema\": \"2019/DeploymentTemplate.json#\"\x7d"
    let document := "\x7b\"b\": 1, \"$schema\": \"draft\", \"a\": \x7b\"resources\": []\x7d\x7d"
    extensionAsWritten? "infra/Main.JSON" = some "JSON" ∧
      Arm.HoldsTemplate template ∧ ¬ Arm.HoldsTemplate document ∧
      (∃ file members, ((builtin {} {}).route
          { path := "infra/Main.JSON", content := some template }).elements = file :: members ∧
        file.metadata.get? "language" = some (.str "ARM")) ∧
      ((builtin {} {}).route
        { path := "infra/Main.JSON", content := some document }).findings = [] := by
  intro template document
  have hext : extensionAsWritten? "infra/Main.JSON" = some "JSON" := by decide +kernel
  have htemplate : Arm.HoldsTemplate template := by decide +kernel
  have hdocument : ¬ Arm.HoldsTemplate document := by decide +kernel
  obtain ⟨file, members, helements, -, -, hlanguage, -⟩ := route_json_file {} {}
    { path := "infra/Main.JSON", content := some template } rfl rfl (by decide +kernel) hext
    (by decide)
  obtain ⟨_, _, _, _, _, _, hreport, _⟩ := route_json_file {} {}
    { path := "infra/Main.JSON", content := some document } rfl rfl (by decide +kernel) hext
    (by decide)
  exact ⟨hext, htemplate, hdocument, ⟨file, members, helements, hlanguage.mpr htemplate⟩,
    (hreport hdocument).2.2.1⟩

end Workspace

end CodeSurvey
