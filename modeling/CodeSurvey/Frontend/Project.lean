import CodeSurvey.Detect.Project
import CodeSurvey.Frontend.Basic
import CodeSurvey.Frontend.Facts
import CodeSurvey.Markup.Reader

/-!
# Solutions and project files

A solution lists the projects it contains, one to a line. A project file is markup whose references
name packages, other projects and assemblies, and whose property groups say what is built. Malformed
markup leaves a project without references and properties. These files are read from disk.
-/

namespace CodeSurvey.Project

/-! ## Solutions -/

section Shapes

open Regex

def identifier : Regex :=
  plus (set (.anyOf [.digit, .range 'A' 'F', .range 'a' 'f', .one '-']))

/-- What stands between two quotes, not empty. -/
def quoted (n : Nat) : Regex := all [lit "\"", group n (plus (set (.notChars "\""))), lit "\""]

/-- The entry of a project; its groups are the type, the name, the path and the identifier. -/
def entry : Regex :=
  all [
    lineStart, lit "Project(\"\x7b", group 1 identifier, lit "\x7d\")", blanks, lit "=", blanks,
    quoted 2, blanks, lit ",", blanks, quoted 3, blanks, lit ",", blanks, lit "\"\x7b",
    group 4 identifier, lit "\x7d\""]

/-- The format of a solution; group 1 is its version. -/
def format : Regex :=
  all [
    lit "Microsoft Visual Studio Solution File, Format Version ",
    group 1 (plus (set (.anyOf [.decimal, .one '.'])))]

end Shapes

/-- The type of folders, which are no projects. -/
def folderType : String := "2150E333-8FDC-42A3-9474-1A3956D46DE8"

def slashed (path : String) : String := Text.replace "\\" "/" path

/-- The entries of a solution that are projects. -/
def entries (content : String) : List Match :=
  (entry.findAll content).filter fun m => !Text.sameIgnoringCase (m.group 1) folderType

def entryFact (path : String) (content : String) (m : Match) : Fact :=
  .relate path (slashed (m.group 3)) .contains (Text.lineOfIndex content m.start)
    [("project_name", .str (m.group 2)), ("project_guid", .str (m.group 4)),
      ("project_type_guid", .str (m.group 1))]

def addSolution (place : Place) (content : String) (report : Report) : Report :=
  let all := entries content
  let report := report.updateFile fun d =>
    (d.noteText? "format_version" ((format.find? content).map (·.group 1))).addDependencies
      (all.map fun m => slashed (m.group 3))
  report.recordAll place (all.map (entryFact place.path content))

/-! ## References and properties of a project -/

inductive ReferenceKind where
  | package
  | project
  | assembly
  deriving Repr, DecidableEq

namespace ReferenceKind

def tagName : ReferenceKind → String
  | package => "PackageReference"
  | project => "ProjectReference"
  | assembly => "Reference"

def key : ReferenceKind → String
  | package => "package"
  | project => "project"
  | assembly => "assembly"

/-- The kind of the references under a name. -/
def ofTagName? (name : String) : Option ReferenceKind :=
  [package, project, assembly].find? (·.tagName = name)

end ReferenceKind

structure Reference where
  kind : ReferenceKind
  included : String
  version : Option String
  line : Nat
  deriving Repr, DecidableEq

/-- What is referred to: a path with forward slashes, an assembly without its details. -/
def Reference.target (r : Reference) : String :=
  match r.kind with
  | .project => slashed r.included
  | .assembly => Text.trim (Text.beforeFirst (· == ',') r.included)
  | .package => r.included

def reference? (tag : Markup.Tag) (line : Nat) : Option Reference := do
  let kind ← ReferenceKind.ofTagName? (Markup.localPart tag.name)
  let included ← (tag.attribute? "Include").or (tag.attribute? "Update")
  some ⟨kind, included, (tag.attribute? "Version").or (tag.attribute? "VersionOverride"), line⟩

/-- The entry of the file's metadata that a property of a project is noted under. -/
def propertyKey? : String → Option String
  | "TargetFramework" => some "target_framework"
  | "TargetFrameworks" => some "target_frameworks"
  | "TargetFrameworkVersion" => some "target_framework"
  | "OutputType" => some "output_type"
  | "RootNamespace" => some "root_namespace"
  | "AssemblyName" => some "assembly_name"
  | "LangVersion" => some "lang_version"
  | "Nullable" => some "nullable"
  | _ => none

/-- What has been met of a project: the names of the open elements, nearest first, the reference
whose element is open, and all references and properties so far. -/
structure Progress where
  opened : List String := []
  pending : Option Reference := none
  references : List Reference := []
  properties : List (String × String) := []
  deriving Repr, DecidableEq

namespace Progress

/-- Takes in an opening tag. The outermost one may name the kit that the project is built with. -/
def openTag (p : Progress) (tag : Markup.Tag) (line : Nat) : Progress :=
  let kit := if p.opened.isEmpty then (tag.attribute? "Sdk").toList else []
  { p with
    opened := Markup.localPart tag.name :: p.opened
    pending := (reference? tag line).or p.pending
    properties := p.properties ++ kit.map fun value => ("sdk", value) }

def emptyTag (p : Progress) (tag : Markup.Tag) (line : Nat) : Progress :=
  { p with references := p.references ++ (reference? tag line).toList }

/-- Takes in a text: the version of the open reference, or a property of a group. -/
def text (p : Progress) (value : String) : Progress :=
  match p.opened with
  | "Version" :: _ =>
    { p with pending := p.pending.map fun r => { r with version := some (Text.trim value) } }
  | name :: "PropertyGroup" :: _ =>
    { p with
      properties := p.properties ++ (propertyKey? name).toList.map fun key => (key, Text.trim value) }
  | _ => p

/-- Takes in a closing tag, which completes the open reference if it closes its element. -/
def closeTag (p : Progress) : Progress :=
  match p.opened, p.pending with
  | [], _ => p
  | _ :: opened, none => { p with opened }
  | name :: opened, some r =>
    if name = r.kind.tagName then
      { p with opened, pending := none, references := p.references ++ [r] }
    else { p with opened }

end Progress

/-- Something malformed on a line. -/
structure Complaint where
  line : Nat
  message : String
  deriving Repr, DecidableEq

/-- The line of what follows a position, blanks passed over. -/
def lineAhead (content : String) (position : Nat) : Nat :=
  let blanks := (Text.dropBytes position content.toList).takeWhile Text.isBlank
  Text.lineOfOffset content (position + Text.byteLength blanks)

def Progress.next (content : String) (p : Progress) (e : Markup.Located) :
    Except Complaint Progress :=
  let line := lineAhead content e.position
  match e.event with
  | .opened tag => .ok (p.openTag tag line)
  | .empty tag => .ok (p.emptyTag tag line)
  | .closed => .ok p.closeTag
  | .skipped => .ok p
  | .text raw =>
    match Markup.unescape raw with
    | .ok value => .ok (p.text value)
    | .error fault => .error ⟨line, fault.message⟩

def readProject (content : String) : Except Complaint Progress := do
  let reading := Markup.read content
  let p ← reading.events.foldlM (Progress.next content) {}
  match reading.fault with
  | none => .ok p
  | some fault => .error ⟨Text.lineOfOffset content fault.position, fault.cause.message⟩

/-- The value noted for a property; several frameworks make a list. -/
def propertyValue (key value : String) : Json :=
  if key = "target_frameworks" then
    .strings (((Text.split ';' value).map Text.trim).filter (!·.isEmpty))
  else .str value

def referenceFact (path : String) (r : Reference) : Fact :=
  .relate path r.target .imports r.line
    (("reference_kind", .str r.kind.key) :: r.version.toList.map fun v => ("version", .str v))

def addProject (place : Place) (content : String) (report : Report) : Report :=
  match readProject content with
  | .error c => report.fail (.badSyntax place.path c.line c.message)
  | .ok p =>
    let report := report.updateFile fun d =>
      (p.properties.foldl (fun d e => d.note e.1 (propertyValue e.1 e.2)) d).addDependencies
        (p.references.map Reference.target)
    report.recordAll place (p.references.map (referenceFact place.path))

/-! ## The front end -/

def isSolution (path : String) : Bool :=
  (extensionAsWritten? path).any (Text.sameIgnoringCase "sln")

def survey (settings : Settings) (fs : FileSystem) (path : String) (context : Option String)
    (cancelled : Bool) (bank : Bank := Detect.Project.bank) : Report :=
  if cancelled then .failed path (Failure.cancelled path).message
  else
    match fs.readText path with
    | .error fault => .failed path (Failure.unreadable path fault.message).message
    | .ok content =>
      let place : Place := ⟨path, Context.resolve settings.context fs path context⟩
      if isSolution path then addSolution place content (.opening place content "Solution")
      else
        (addProject place content (.opening place content "MSBuild")).detect settings.detectors bank
          { filePath := path, context := place.context, source := content }

def frontend (settings : Settings) : FileFrontend where
  language := "MSBuild"
  extensions := ["sln", "csproj", "vbproj", "fsproj"]
  survey fs path context cancelled := .ok (survey settings fs path context cancelled)

end CodeSurvey.Project
