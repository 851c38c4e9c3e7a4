import CodeSurvey.Proofs.Detect.Guards
import CodeSurvey.Proofs.Json.Texts

/-!
# Secure parameters with defaults

The rule decides on the document, where the letter case of a type does not matter, but searches the
source first for four spellings of the secure types. Where one of them occurs, each secure parameter
with a default is reported once, in the order of the keys. Where none does, nothing is reported.
So the spellings of a type that are never missed are just those four.
-/

namespace CodeSurvey.Detect.Arm

/-! ## What is to be reported -/

/-- The secure types in lower case. -/
def secureTypes : List String := ["securestring", "secureobject"]

/-- The parameter has a secure type, spelled this way up to the case of letters, and a default that
is neither null nor empty. -/
structure SecureDefault (type : String) (parameter : Json) : Prop where
  declared : parameter.textField? "type" = some type
  secure : Text.lowerAscii type ∈ secureTypes
  filled : ∃ value, parameter.field? "defaultValue" = some value ∧ value ≠ .null ∧ value ≠ .str ""

theorem isSecure_iff (parameter : Json) :
    isSecure parameter = true ↔
      ∃ type, parameter.textField? "type" = some type ∧ Text.lowerAscii type ∈ secureTypes := by
  have hstring : Text.lowerAscii "securestring" = "securestring" := by decide
  have hobject : Text.lowerAscii "secureobject" = "secureobject" := by decide
  simp [isSecure, Text.sameIgnoringCase, secureTypes, Option.any_eq_true, hstring, hobject]

theorem hasDefault_iff (parameter : Json) :
    hasDefault parameter = true ↔
      ∃ value, parameter.field? "defaultValue" = some value ∧ value ≠ .null ∧ value ≠ .str "" := by
  rw [hasDefault]
  cases parameter.field? "defaultValue" with
  | none => simp
  | some value => cases value <;> simp

theorem exists_secureDefault_iff (parameter : Json) :
    (∃ type, SecureDefault type parameter) ↔
      (isSecure parameter && hasDefault parameter) = true := by
  rw [Bool.and_eq_true, isSecure_iff, hasDefault_iff]
  constructor
  · rintro ⟨type, hdeclared, hsecure, hfilled⟩
    exact ⟨⟨type, hdeclared, hsecure⟩, hfilled⟩
  · rintro ⟨⟨type, hdeclared, hsecure⟩, hfilled⟩
    exact ⟨type, hdeclared, hsecure, hfilled⟩

instance (parameter : Json) : Decidable (∃ type, SecureDefault type parameter) :=
  decidable_of_iff' _ (exists_secureDefault_iff parameter)

def parameters (document : Json) : Fields :=
  ((document.field? "parameters").bind Json.fields?).getD []

/-- The names of the secure parameters with a default, in the order of the keys. -/
def secureParameters (document : Json) : List String :=
  ((parameters document).filter fun e : String × Json => ∃ type, SecureDefault type e.2).map (·.1)

/-- The finding is about the secure parameter of that name. -/
structure ReportsOn (f : Finding) (parameter : String) : Prop where
  name : f.name = "ARM_SecureStringDefault"
  implementation : f.implementation = "Secure parameter '" ++ parameter ++ "' has a default value"
  metadata : f.metadata = [("parameter", .str parameter)]

/-- The document of the scene is the one that its source holds. -/
structure Loaded (scene : Scene) (document : Json) : Prop where
  read : Json.parse? scene.source = some document
  given : scene.document = some document

/-- Each secure parameter with a default is reported once, in the order of the keys, and nothing
else is. -/
def AllReported (scene : Scene) (document : Json) : Prop :=
  List.Forall₂ ReportsOn (secureDefaults.findings scene) (secureParameters document)

/-- No secure parameter whose type is spelled this way is missed in a source without escapes. -/
def NeverMissed (type : String) : Prop :=
  ∀ scene document, Loaded scene document → '\\' ∉ scene.source.toList →
    (∃ e ∈ parameters document, SecureDefault type e.2) → AllReported scene document

/-! ## What is reported -/

section Loaded

variable {scene : Scene} {document : Json} (h : Loaded scene document)

include h

theorem Loaded.ascending_parameters : (parameters document).Ascending := by
  rw [parameters]
  cases hvalue : document.field? "parameters" with
  | none => exact List.Pairwise.nil
  | some value =>
    cases value with
    | obj fields => exact Json.rendered_of_parse? h.read (Json.part_of_field? hvalue)
    | null | bool | num | str | arr => exact List.Pairwise.nil

theorem Loaded.unguarded_eq :
    secureDefaults.unguarded scene = (secureParameters document).map fun name =>
      secureDefaults.finding scene
        { spot := .line (Code.lineOfQuoted scene.source name 0).1
          implementation := "Secure parameter '" ++ name ++ "' has a default value"
          metadata := [("parameter", .str name)] } := by
  have hfilter : (parameters document).filter (fun e => isSecure e.2 && hasDefault e.2) =
      (parameters document).filter fun e : String × Json => ∃ type, SecureDefault type e.2 := by
    refine List.filter_congr fun e _ => ?_
    rw [Bool.eq_iff_iff, decide_eq_true_iff, exists_secureDefault_iff]
  rw [Rule.unguarded, secureParameters, ← hfilter, List.map_map]
  simp only [secureDefaults, h.given, Option.bind_some, List.map_map]
  rfl

theorem Loaded.forall₂_unguarded :
    List.Forall₂ ReportsOn (secureDefaults.unguarded scene) (secureParameters document) := by
  rw [h.unguarded_eq, List.forall₂_map_left_iff, List.forall₂_same]
  intro name _
  exact ⟨rfl, rfl, rfl⟩

theorem Loaded.allReported_of_occurs {g : String} (hg : g ∈ secureDefaults.guards)
    (hoccurs : Text.Occurs g scene.source) : AllReported scene document := by
  rw [AllReported, Rule.findings_of_occurs hg hoccurs]
  exact h.forall₂_unguarded

end Loaded

/-- Everything is reported just where there is nothing to report or a guard occurs. -/
theorem Loaded.allReported_iff {scene : Scene} {document : Json} (h : Loaded scene document) :
    AllReported scene document ↔
      secureParameters document = [] ∨
        ∃ g ∈ secureDefaults.guards, Text.Occurs g scene.source := by
  by_cases hguard : ∃ g ∈ secureDefaults.guards, Text.Occurs g scene.source
  · obtain ⟨g, hg, hoccurs⟩ := hguard
    exact ⟨fun _ => .inr ⟨g, hg, hoccurs⟩, fun _ => h.allReported_of_occurs hg hoccurs⟩
  · have hnone : secureDefaults.findings scene = [] :=
      Rule.findings_of_not_occurs (by decide) fun g hg hoccurs => hguard ⟨g, hg, hoccurs⟩
    rw [AllReported, hnone, List.forall₂_nil_left_iff, or_iff_left hguard]

/-! ## Spellings that are never missed -/

/-- The type of a parameter is one of the texts of the document. -/
theorem part_of_secureDefault {type : String} {document : Json} {e : String × Json}
    (he : e ∈ parameters document) (h : SecureDefault type e.2) :
    (Json.str type).Part document := by
  obtain ⟨value, hfield, htext⟩ := Option.bind_eq_some_iff.mp h.declared
  have hvalue : value = .str type := by
    cases value <;> simp_all [Json.text?]
  have htype : (Json.str type).Part e.2 := hvalue ▸ Json.part_of_field? hfield
  rw [parameters] at he
  cases hsection : document.field? "parameters" with
  | none => simp [hsection] at he
  | some object =>
    rw [hsection, Option.bind_some] at he
    cases object with
    | obj fields => exact (Json.Part.field he htype).trans (Json.part_of_field? hsection)
    | null | bool | num | str | arr => cases he

theorem secureParameters_ne_nil {type : String} {document : Json} {e : String × Json}
    (he : e ∈ parameters document) (h : SecureDefault type e.2) :
    secureParameters document ≠ [] := by
  have hmem : e ∈ (parameters document).filter fun e : String × Json =>
      ∃ type, SecureDefault type e.2 :=
    List.mem_filter.mpr ⟨he, decide_eq_true ⟨type, h⟩⟩
  exact List.ne_nil_of_mem (List.mem_map_of_mem hmem)

theorem neverMissed_of_mem {type : String} (h : type ∈ secureDefaults.guards) :
    NeverMissed type := by
  intro scene document hloaded hplain ⟨e, he, hdefault⟩
  have hoccurs : Text.Occurs type scene.source :=
    Json.rendered_of_parse? hloaded.read (part_of_secureDefault he hdefault) hplain
  exact hloaded.allReported_of_occurs h hoccurs

section Spelling

variable {type : String} (h : Text.lowerAscii type ∈ secureTypes)

include h

theorem isPlain_of_secure : type.toList.all Json.isPlain = true := by
  have hletters : ∀ word ∈ secureTypes, word.toList.all Char.isAlpha = true := by decide
  rw [List.all_eq_true]
  intro c hc
  have hlower : c.toLower ∈ (Text.lowerAscii type).toList := by
    rw [Text.lowerAscii, String.toList_ofList]
    exact List.mem_map_of_mem hc
  have halpha := List.all_eq_true.mp (hletters _ h) _ hlower
  apply Json.isPlain_of_isAlpha
  by_cases hupper : c.isUpper = true
  · rw [Char.isAlpha, hupper, Bool.true_or]
  · rwa [Char.toLower_eq_of_not_isUpper hupper] at halpha

theorem length_of_secure : type.toList.length = 12 := by
  have hlengths : ∀ word ∈ secureTypes, word.toList.length = 12 := by decide
  have hlower := hlengths _ h
  rwa [Text.lowerAscii, String.toList_ofList, List.length_map] at hlower

end Spelling

/-- A key before the text of its value. -/
def keyed (key : String) (body : List Char) : List Char := Json.quoted key (':' :: body)

/-- A parameter of the type with a default, before other characters. -/
def parameterText (type : String) (rest : List Char) : List Char :=
  '\x7b' :: keyed "defaultValue" (Json.quoted "hunter2" (',' ::
    keyed "type" (Json.quoted type ('\x7d' :: rest))))

/-- A template with one parameter of the type. -/
def templateText (type : String) : List Char :=
  '\x7b' :: keyed "parameters" ('\x7b' :: keyed "key" (parameterText type ['\x7d', '\x7d']))

/-- What is read of the parameter. -/
def parameterOf (type : String) : Json :=
  .obj [("defaultValue", .str "hunter2"), ("type", .str type)]

/-- The template with its document. -/
def oneParameter (type : String) : Scene where
  filePath := "azuredeploy.json"
  context := "infra"
  source := String.ofList (templateText type)
  document := some (.obj [("parameters", .obj [("key", parameterOf type)])])

/-- The template up to the type. -/
def templateStart : List Char :=
  '\x7b' :: keyed "parameters" ('\x7b' :: keyed "key" ('\x7b' :: keyed "defaultValue"
    (Json.quoted "hunter2" (',' :: keyed "type" []))))

theorem templateText_eq (type : String) :
    templateText type =
      templateStart ++ '"' :: (type.toList ++ '"' :: ['\x7d', '\x7d', '\x7d']) := by
  simp only [templateText, templateStart, parameterText, keyed, Json.quoted, List.cons_append,
    List.append_assoc, List.nil_append]

section Reading

variable {type : String} (h : Text.lowerAscii type ∈ secureTypes)

include h

theorem readValue?_parameterText (fuel depth : Nat) (rest : List Char) :
    Json.readValue? (fuel + 4) (depth + 1) (parameterText type rest) =
      some (parameterOf type, rest) := by
  have htype : Json.readFields? (fuel + 2) depth
      (keyed "type" (Json.quoted type ('\x7d' :: rest))) = some ([("type", .str type)], rest) :=
    Json.readFields?_last (by decide) (Json.readValue?_quoted (isPlain_of_secure h) _)
  have hfields : Json.readFields? (fuel + 3) depth
      (keyed "defaultValue" (Json.quoted "hunter2" (',' ::
        keyed "type" (Json.quoted type ('\x7d' :: rest))))) =
      some ([("defaultValue", .str "hunter2"), ("type", .str type)], rest) :=
    Json.readFields?_more (by decide) (Json.readValue?_quoted (by decide) _) htype
  have horder : Fields.ofList [("defaultValue", .str "hunter2"), ("type", .str type)] =
      [("defaultValue", .str "hunter2"), ("type", .str type)] := by
    have hlt : ¬ "type" < "defaultValue" := by decide
    simp [Fields.ofList, Fields.set, hlt]
  have hobject := Json.readValue?_object hfields
  rwa [horder] at hobject

theorem parse?_oneParameter :
    Json.parse? (oneParameter type).source = (oneParameter type).document := by
  have hread (fuel : Nat) : Json.readValue? (fuel + 8) Json.maxDepth (templateText type) =
      some (.obj [("parameters", .obj [("key", parameterOf type)])], []) := by
    have hkey := Json.readFields?_last (by decide : "key".toList.all Json.isPlain = true)
      (readValue?_parameterText h fuel 124 ['\x7d', '\x7d'])
    exact Json.readValue?_object (Json.readFields?_last (by decide) (Json.readValue?_object hkey))
  have htext : (oneParameter type).source.toList = templateText type := String.toList_ofList
  obtain ⟨fuel, hfuel⟩ : ∃ fuel, 2 * (oneParameter type).source.length + 2 = fuel + 8 := by
    refine Nat.exists_eq_add_of_le' ?_
    rw [← String.length_toList, htext]
    simp only [templateText, keyed, Json.quoted, List.length_cons, List.length_append]
    omega
  rw [Json.parse?, hfuel, htext, hread]
  rfl

theorem secureDefault_parameterOf : SecureDefault type (parameterOf type) where
  declared := rfl
  secure := h
  filled := ⟨.str "hunter2", rfl, by simp, by simp⟩

theorem not_mem_oneParameter : '\\' ∉ (oneParameter type).source.toList := by
  have hstart : '\\' ∉ templateStart := by decide
  have htype : '\\' ∉ type.toList := by
    intro hmem
    exact absurd (List.all_eq_true.mp (isPlain_of_secure h) _ hmem) (by decide)
  rw [oneParameter, String.toList_ofList, templateText_eq]
  simp [hstart, htype]

/-- In the template a guard occurs only as the type. -/
theorem eq_of_occurs_oneParameter {g : String} (hg : g ∈ secureDefaults.guards)
    (hoccurs : Text.Occurs g (oneParameter type).source) : g = type := by
  have hguards : ∀ g ∈ secureDefaults.guards, '"' ∉ g.toList ∧ g.toList.length = 12 ∧
      ¬ g.toList <:+: templateStart ∧ ¬ g.toList <:+: ['\x7d', '\x7d', '\x7d'] := by
    decide
  obtain ⟨hquote, hlength, hstart, hend⟩ := hguards g hg
  -- without a quotation mark it lies on one side of those around the type, or between them
  rw [Text.Occurs, oneParameter, String.toList_ofList, templateText_eq] at hoccurs
  have hrest := (Text.infix_or_infix_of_not_mem hquote hoccurs).resolve_left hstart
  have htype := (Text.infix_or_infix_of_not_mem hquote hrest).resolve_right hend
  exact String.toList_inj.mp (htype.eq_of_length (by rw [hlength, length_of_secure h]))

theorem mem_of_neverMissed (hnever : NeverMissed type) : type ∈ secureDefaults.guards := by
  -- a template in which nothing else could be a guard
  have hloaded : Loaded (oneParameter type)
      (.obj [("parameters", .obj [("key", parameterOf type)])]) :=
    ⟨parse?_oneParameter h, rfl⟩
  have hparameter : ("key", parameterOf type) ∈
      parameters (.obj [("parameters", .obj [("key", parameterOf type)])]) :=
    List.mem_singleton_self _
  have hdefault := secureDefault_parameterOf h
  have hall := hnever _ _ hloaded (not_mem_oneParameter h) ⟨_, hparameter, hdefault⟩
  rcases hloaded.allReported_iff.mp hall with hnone | ⟨g, hg, hoccurs⟩
  · exact absurd hnone (secureParameters_ne_nil hparameter hdefault)
  · exact eq_of_occurs_oneParameter h hg hoccurs ▸ hg

end Reading

/-! ## Main statement -/

/-- The parameters of a template have their keys in ascending order, and each secure one with a
default is reported once, in this order, if there is none or if one of the guards occurs in the
source. Else nothing is reported. A spelling of a secure type is never missed in sources without
escapes just if it is one of the guards. -/
theorem secureDefaults_reported {scene : Scene} {document : Json} (h : Loaded scene document) :
    (parameters document).Ascending ∧
      (AllReported scene document ↔
        secureParameters document = [] ∨
          ∃ g ∈ secureDefaults.guards, Text.Occurs g scene.source) ∧
      (¬ AllReported scene document → secureDefaults.findings scene = []) ∧
      ∀ type, Text.lowerAscii type ∈ secureTypes →
        (NeverMissed type ↔
          type ∈ ["securestring", "secureString", "secureObject", "secureobject"]) := by
  refine ⟨h.ascending_parameters, h.allReported_iff, fun hmissed => ?_, fun type htype => ?_⟩
  · exact Rule.findings_of_not_occurs (by decide) fun g hg hoccurs =>
      hmissed (h.allReported_of_occurs hg hoccurs)
  · exact ⟨mem_of_neverMissed htype, neverMissed_of_mem⟩

/-- A template whose parameters are not listed in the order of their keys. -/
def shuffledTemplate : Scene where
  filePath := "azuredeploy.json"
  context := "infra"
  source := "\x7b \"parameters\": \x7b\n" ++
    "  \"token\": \x7b \"type\": \"secureString\", \"defaultValue\": \"x\" \x7d,\n" ++
    "  \"region\": \x7b \"type\": \"string\", \"defaultValue\": \"eu\" \x7d,\n" ++
    "  \"admin\": \x7b \"type\": \"SECUREOBJECT\", \"defaultValue\": \x7b\x7d \x7d\n\x7d \x7d"

def shuffledDocument : Json :=
  .obj [("parameters", .obj [
    ("admin", .obj [("defaultValue", .obj []), ("type", .str "SECUREOBJECT")]),
    ("region", .obj [("defaultValue", .str "eu"), ("type", .str "string")]),
    ("token", .obj [("defaultValue", .str "x"), ("type", .str "secureString")])])]

/-- The type that is spelled like a guard brings the other one in as well, and both parameters are
reported in the order of their names. -/
theorem secureDefaults_shuffledTemplate :
    Json.parse? shuffledTemplate.source = some shuffledDocument ∧
      secureParameters shuffledDocument = ["admin", "token"] ∧
      AllReported { shuffledTemplate with document := some shuffledDocument } shuffledDocument ∧
      ¬ NeverMissed "SECUREOBJECT" := by
  have hread : Json.parse? shuffledTemplate.source = some shuffledDocument := by cbv
  have hloaded : Loaded { shuffledTemplate with document := some shuffledDocument }
      shuffledDocument := ⟨hread, rfl⟩
  obtain ⟨-, hall, -, hspelling⟩ := secureDefaults_reported hloaded
  refine ⟨hread, by decide +kernel,
    hall.mpr (.inr ⟨"secureString", by decide, by decide +kernel⟩), ?_⟩
  rw [hspelling "SECUREOBJECT" (by decide)]
  decide

/-- A template whose secure type has capitals that no guard has. -/
def capitalTemplate : Scene where
  filePath := "azuredeploy.json"
  context := "infra"
  source := "\x7b\n  \"parameters\": \x7b\n    \"adminPassword\": " ++
    "\x7b \"type\": \"SecureString\", \"defaultValue\": \"Passw0rd!\" \x7d\n  \x7d\n\x7d"
  document := some (.obj [("parameters", .obj [("adminPassword",
    .obj [("defaultValue", .str "Passw0rd!"), ("type", .str "SecureString")])])])

/-- The secure parameter of this template has a default and is not reported. -/
theorem secureDefault_missed_capitalTemplate :
    Json.parse? capitalTemplate.source = capitalTemplate.document ∧
      capitalTemplate.document.map secureParameters = some ["adminPassword"] ∧
      secureDefaults.findings capitalTemplate = [] := by
  refine ⟨by cbv, by decide +kernel, ?_⟩
  exact Rule.findings_of_not_occurs (by decide) (by decide +kernel)

end CodeSurvey.Detect.Arm
