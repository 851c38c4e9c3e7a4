import CodeSurvey.Survey.Registry

/-!
# Routing a file to its front end

Whatever comes in, a report comes out. A file that no front end knows, or that is too large, is kept
as one element with the beginning of its text. A front end that reads its files itself is given the
text under a temporary path, and its report is then moved to the path asked for.
-/

namespace CodeSurvey

/-- A file to be routed; without content it is read from the file system. -/
structure Request where
  path : String
  content : Option String := none
  context : Option String := none
  cancelled : Bool := false
  tree : Option Tree := none
  deriving Repr

structure Workspace where
  settings : Settings := {}
  registry : Registry := {}
  files : FileSystem := {}

/-- The report of a front end; a crash becomes a failure. -/
def Report.guarded (path language : String) : Except Crash Report → Report
  | .ok report => report
  | .error crash =>
    .failed path (Failure.unavailable (language ++ " parser failed: " ++ crash.message)).message

/-- Tries a fallback when a report has no elements; the errors of both are kept. -/
def Report.orFallback (first : Report) (fallback : Option Report) : Report :=
  match fallback with
  | some second => if first.elements.isEmpty then first.errors.foldl addError second else first
  | none => first

namespace Workspace

def run (w : Workspace) (f : Frontend) (source : Source) : Report :=
  .guarded source.path f.language (f.survey w.files source)

/-- The temporary path for a file: its extension is kept. -/
def scratchPath (w : Workspace) (path : String) : String :=
  "/tmp/" ++ w.settings.router.tempFileStart ++ "scratch" ++
    ((extension? path).map ("." ++ ·)).getD ""

/-- The report of a front end that reads its files itself on a text. -/
def runOnDisk (w : Workspace) (f : FileFrontend) (source : Source) : Report :=
  let scratch := w.scratchPath source.path
  let location : Location := ⟨true, Path.pieces scratch⟩
  let files := w.files.addFile location (Text.encode source.content) none
  (Report.guarded source.path f.language
    (f.survey files scratch source.context source.cancelled)).relocate scratch source.path

/-- The report on a file that is kept as it is, up to a number of characters. -/
def unstructured (w : Workspace) (source : Source) : Report :=
  let cap := w.settings.router.unstructuredCap
  let length := source.content.length
  let d : Declaration := {
    kind := .file
    name := source.path
    content := Text.take cap source.content
    tags := ["unstructured"]
    metadata := Fields.ofList [
      ("language", .str "unknown"), ("extension", .str ((extension? source.path).getD "")),
      ("truncated", .bool (cap < length)), ("original_length", .nat length),
      ("content_hash", .str (Digest.ofText source.content))] }
  { filePath := source.path, elements := [d.toElement source.path (source.context.getD "")] }

/-- How a source is surveyed: a text above the size limit is kept as it is. -/
def dispatch (w : Workspace) (source : Source) : Dispatch :=
  if w.settings.router.maxFileSize < Text.byteLength source.content.toList then .unstructured
  else w.registry.dispatch source.path

def survey (w : Workspace) (source : Source) : Report :=
  match w.dispatch source with
  | .content primary fallback =>
    (w.run primary source).orFallback (fallback.map (w.run · source))
  | .onDisk f => w.runOnDisk f source
  | .unstructured => w.unstructured source

def contentOf (w : Workspace) (request : Request) : Except ReadFault (String × Option Tree) :=
  match request.content with
  | some content => .ok (content, request.tree)
  | none => w.files.readLossy request.path

def route (w : Workspace) (request : Request) : Report :=
  if request.cancelled then .failed request.path (Failure.cancelled request.path).message
  else
    match w.contentOf request with
    | .error fault => .failed request.path (Failure.unreadable request.path fault.message).message
    | .ok (content, tree) =>
      let context := Context.resolve w.settings.context w.files request.path request.context
      (w.survey { path := request.path, content, context := some context, tree }).attachFindings

end Workspace

end CodeSurvey
