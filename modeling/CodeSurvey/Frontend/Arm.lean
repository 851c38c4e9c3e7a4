import CodeSurvey.Detect.Arm
import CodeSurvey.Frontend.Basic
import CodeSurvey.Frontend.Facts
import CodeSurvey.Json.Reader

/-!
# Resource manager templates

A template is a JSON document that names a schema of templates or has sections that only templates
have. Its parameters, variables, outputs and resources become elements, and expressions in their
texts say which parameters and variables they use. A document that is no template gives a report
without elements, which leaves it to another front end.
-/

namespace CodeSurvey.Arm

/-- Whether a document is a template: it names a schema, and either the schema is one of templates
or the document has resources or parameters. -/
def isTemplate (document : Json) : Bool :=
  match document.field? "$schema" with
  | none => false
  | some schema =>
    let schema := Text.lowerAscii (schema.text?.getD "")
    Text.containsAny ["deploymenttemplate", "deploymentparameters", "managedapplication"] schema ||
      (document.field? "resources").isSome || (document.field? "parameters").isSome

section Shapes

open Regex

/-- A use of a parameter or a variable; its groups are the section and the name. -/
def expressionReference : Regex :=
  all [
    edge, group 1 (oneOf ["parameters", "variables"]), lit "(", blanks, lit "'",
    group 2 (plus (set (.notChars "'"))), lit "'", blanks, lit ")"]

/-- An expression that names a resource; its groups are the type and the other arguments. -/
def resourceId : Regex :=
  all [
    start, lit "[", blanks, lit "resourceId(", blanks, lit "'",
    group 1 (plus (set (.notChars "'"))), lit "'", blanks, lit ",", blanks,
    group 2 (plus (set .notNewline)), lit ")", blanks, lit "]", stop]

end Shapes

/-! ## References -/

mutual

def textsIn : Json → List String
  | .str s => [s]
  | .arr items => textsInItems items
  | .obj fields => textsInFields fields
  | _ => []

def textsInItems : List Json → List String
  | [] => []
  | v :: rest => textsIn v ++ textsInItems rest

def textsInFields : List (String × Json) → List String
  | [] => []
  | (_, v) :: rest => textsIn v ++ textsInFields rest

end

/-- The parameters and variables that the texts within a value use, each once. -/
def referencesIn (value : Json) : List String :=
  ((textsIn value).flatMap fun text =>
    (expressionReference.findAll text).map fun m => m.group 1 ++ "." ++ m.group 2).eraseDups

def useFacts (own : String) (value : Json) (line : Nat) : List Fact :=
  ((referencesIn value).filter (· != own)).map (Fact.edge own · .uses line)

/-- The arguments between the commas outside brackets; `depth` brackets are open and `pending` is
the argument being read. -/
def argumentsFrom (depth : Int) (pending : List Char) : List Char → List (List Char)
  | [] => [pending.reverse]
  | c :: cs =>
    if c = ',' && depth == 0 then pending.reverse :: argumentsFrom depth [] cs
    else
      let depth := if c = '(' then depth + 1 else if c = ')' then depth - 1 else depth
      argumentsFrom depth (c :: pending) cs

/-- The arguments of a call, separated by commas outside the calls within it. -/
def arguments (text : String) : List String :=
  (argumentsFrom 0 [] text.toList).map fun cs => Text.trim (String.ofList cs)

/-- A name as an argument gives it: a quoted text without the quotes, an expression in brackets. -/
def argumentName (argument : String) : String :=
  ((Text.afterStart? "'" argument).bind (Text.beforeEnd? "'")).getD ("[" ++ argument ++ "]")

/-- The resource that a dependency names. One that is given by type and names is written like the
name of a resource; any other is kept as it is. -/
def dependencyTarget (dependency : String) : String :=
  match resourceId.find? (Text.trim dependency) with
  | none => dependency
  | some m => String.intercalate "/" (m.group 1 :: (arguments (m.group 2)).map argumentName)

/-! ## Resources -/

/-- A resource, named by its symbol, or by type and name, and what it is declared in. -/
structure Resource where
  owner : String
  name : String
  type : String
  value : Json
  deriving Repr

def resourceName (symbol : Option String) (type : String) (name : Option String) : String :=
  symbol.getD ((name.map fun n => type ++ "/" ++ n).getD type)

mutual

def resourcesIn (owner : String) : List Json → List Resource
  | [] => []
  | entry :: rest => resourceFrom owner none entry ++ resourcesIn owner rest

/-- The resource that an entry declares, and the resources within it; an entry without a type
declares none. -/
def resourceFrom (owner : String) (symbol : Option String) : Json → List Resource
  | .obj fields =>
    match (fields.lookup "type").bind Json.text? with
    | none => []
    | some type =>
      let name := resourceName symbol type ((fields.lookup "name").bind Json.text?)
      ⟨owner, name, type, .obj fields⟩ :: underKey name fields
  | _ => []

def underKey (owner : String) : List (String × Json) → List Resource
  | [] => []
  | (key, value) :: rest => if key = "resources" then listed owner value else underKey owner rest

def listed (owner : String) : Json → List Resource
  | .arr entries => resourcesIn owner entries
  | _ => []

end

/-- The resources of a template, listed or under symbols. -/
def resourcesOf (path : String) : Json → List Resource
  | .arr entries => resourcesIn path entries
  | .obj fields => fields.flatMap fun (symbol, entry) => resourceFrom path (some symbol) entry
  | _ => []

/-- The resources with their lines; each type is looked for after the one before. -/
def locate (source : String) (start : Nat) : List Resource → List (Nat × Resource)
  | [] => []
  | r :: rest =>
    let (line, next) := Code.lineOfQuoted source r.type start
    (line, r) :: locate source next rest

def dependencies (r : Resource) : List String :=
  ((((r.value.field? "dependsOn").bind Json.items?).getD []).filterMap Json.text?).map
    dependencyTarget

def resourceDeclaration (line : Nat) (r : Resource) : Declaration :=
  let version := r.value.textField? "apiVersion"
  let d : Declaration := {
    kind := .type
    name := r.name
    content := r.value.pretty
    lineNumber := line
    signature := (version.map fun v => r.type ++ "@" ++ v).getD ""
    metadata := [("resource_type", .str r.type)] }
  let d := ((d.addTag "resource").addTag r.type).noteText? "api_version" version
  let d := d.noteText? "resource_name" (r.value.textField? "name")
  let d := d.noteText? "location" (r.value.textField? "location")
  let d := if (r.value.field? "condition").isSome then d.addTag "conditional" else d
  let d := if (r.value.field? "copy").isSome then d.addTag "copy" else d
  d.addDependencies (dependencies r)

/-- A value without the resources within it. -/
def withoutInner : Json → Json
  | .obj fields => .obj (Fields.erase "resources" fields)
  | v => v

def resourceFacts (line : Nat) (r : Resource) : List Fact :=
  .declare r.owner (resourceDeclaration line r) ::
    (dependencies r).map (Fact.edge r.name · .uses line) ++
    useFacts r.name (withoutInner r.value) line

/-! ## Parameters, variables and outputs -/

def isSecureType (type : String) : Bool :=
  Text.sameIgnoringCase type "securestring" || Text.sameIgnoringCase type "secureobject"

def entryDeclaration (title key : String) (line : Nat) (value : Json) : Declaration :=
  let type := value.textField? "type"
  let d : Declaration := {
    kind := .property
    name := title ++ "." ++ key
    content := value.pretty
    lineNumber := line
    summary := ((value.field? "metadata").bind (·.textField? "description")).getD ""
    signature := (type.map fun t => t ++ " " ++ key).getD ""
    tags := [Text.withoutEnds "s" title] }
  let d := d.noteText? "type" type
  let d := if type.any isSecureType then d.addTag "secure" else d
  if (value.field? "defaultValue").isSome then d.note "has_default" (.bool true) else d

/-- What the entries of a section state; each key is looked for from the start of the section. -/
def entryFacts (path source title : String) (start : Nat) (entries : Fields) : List Fact :=
  entries.flatMap fun (key, value) =>
    let line := (Code.lineOfQuoted source key start).1
    .declare path (entryDeclaration title key line value) ::
      useFacts (title ++ "." ++ key) value line

/-! ## The template -/

def sections : List String := ["parameters", "variables", "resources", "outputs"]

def sectionFacts (path source : String) (document : Json) (title : String) : List Fact :=
  let start := (Text.find? (Code.quotedName title) source).getD 0
  match document.field? title with
  | none => []
  | some value =>
    if title = "resources" then
      (locate source start (resourcesOf path value)).flatMap fun (line, r) => resourceFacts line r
    else entryFacts path source title start (value.fields?.getD [])

def facts (path source : String) (document : Json) : List Fact :=
  sections.flatMap (sectionFacts path source document)

def surveyTemplate (settings : Settings) (fs : FileSystem) (source : Source) (document : Json)
    (bank : Bank := Detect.Arm.bank) : Report :=
  let place := source.place settings fs
  let report := Report.opening place source.content "ARM"
  let report := report.updateFile fun d =>
    (d.noteText? "schema" (document.textField? "$schema")).noteText? "contentVersion"
      (document.textField? "contentVersion")
  let report := report.recordAll place (facts source.path source.content document)
  report.detect settings.detectors bank
    { filePath := source.path, context := place.context, source := source.content, document }

/-- Surveys a JSON file; one that holds no template gives an empty report. -/
def survey (settings : Settings) (fs : FileSystem) (source : Source)
    (bank : Bank := Detect.Arm.bank) : Report :=
  if source.cancelled then .failed source.path (Failure.cancelled source.path).message
  else
    match Json.parse? source.content with
    | none => { filePath := source.path }
    | some document =>
      if isTemplate document then surveyTemplate settings fs source document bank
      else { filePath := source.path }

def frontend (settings : Settings) : Frontend where
  language := "ARM"
  extensions := ["json"]
  survey fs source := .ok (survey settings fs source)

end CodeSurvey.Arm
