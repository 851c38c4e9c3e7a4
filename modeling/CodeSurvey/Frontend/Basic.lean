import CodeSurvey.Detect.Bank
import CodeSurvey.Digest.Sha256
import CodeSurvey.Files.Context
import CodeSurvey.Model.Fact

/-!
# Front ends

A front end surveys the files of one format. Its report starts with the element of the file itself;
facts found in the text follow, and then what the detectors find.
-/

namespace CodeSurvey

/-- A file to be surveyed: its path and text, the context if given, whether the work was called off
before it began, and the syntax tree of the text where there is one. -/
structure Source where
  path : String
  content : String
  context : Option String := none
  cancelled : Bool := false
  tree : Option Tree := none
  deriving Repr

/-- How much of a format a front end understands. -/
inductive Capability where
  | basic
  | structural
  deriving Repr, DecidableEq

def Capability.title : Capability → String
  | basic => "Basic"
  | structural => "Structural"

structure Frontend where
  language : String
  extensions : List String
  capability : Capability := .structural
  survey : FileSystem → Source → Except Crash Report

/-- Whether a front end knows an extension, in any case of letters. -/
def Frontend.knows (f : Frontend) (extension : String) : Bool :=
  f.extensions.any (Text.sameIgnoringCase extension)

/-- A front end that reads its files itself. -/
structure FileFrontend where
  language : String
  extensions : List String
  survey : FileSystem → (path : String) → (context : Option String) → (cancelled : Bool) →
    Except Crash Report

def fileDeclaration (path content language : String) : Declaration where
  kind := .file
  name := path
  content := content
  tags := [Text.lowerAscii language]
  metadata := Fields.ofList [
    ("language", .str language), ("content_hash", .str (Digest.ofText content)),
    ("line_count", .nat (Text.lines content).length)]

namespace Source

def place (s : Source) (settings : Settings) (fs : FileSystem) : Place :=
  ⟨s.path, Context.resolve settings.context fs s.path s.context⟩

end Source

namespace Report

def opening (place : Place) (content language : String) : Report where
  filePath := place.path
  elements := [(fileDeclaration place.path content language).toElement place.path place.context]

/-- Notes on the file that its text has a syntax error. -/
def flagSyntaxError (r : Report) (line : Nat) : Report :=
  r.updateFile fun d =>
    (d.note "has_syntax_errors" (.bool true)).note "first_error_line" (.nat line)

/-- Adds what the detectors of a bank that are not left out find in a scene. -/
def detect (r : Report) (settings : DetectorSettings) (bank : Bank) (scene : Scene) : Report :=
  let outcome := (bank.without settings.disabled).run { scene with margin := settings.margin }
  outcome.failures.foldl fail (r.addFindings outcome.findings)

end Report

end CodeSurvey
