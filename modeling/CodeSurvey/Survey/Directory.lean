import CodeSurvey.Files.Ignore
import CodeSurvey.Survey.Route

/-!
# Surveying a directory

Every file that is found gets its report, under its path relative to the directory. The reports
stand in the order of these paths.
-/

namespace CodeSurvey

/-- A file found in a directory: its path from the working directory and its path from the
directory. -/
structure FoundFile where
  path : String
  relative : String
  deriving Repr, DecidableEq

def Report.inOrder (reports : List Report) : List Report :=
  reports.mergeSort fun a b => !(b.filePath < a.filePath)

namespace Workspace

def within (root name : String) : String :=
  if Text.endsWith "/" root then root ++ name else root ++ "/" ++ name

/-- The files found in a directory; a root that is a file is itself the only one. -/
def filesIn (w : Workspace) (root : String) : List FoundFile :=
  match w.files.locate root with
  | .error _ => []
  | .ok l =>
    match w.files.entry? l with
    | none => []
    | some (.file _ _) => [⟨root, ""⟩]
    | some .directory =>
      (w.files.scannedFiles w.settings.scan l).map fun (names, _) =>
        let name := String.intercalate "/" names
        ⟨within root name, Text.replace "\\" "/" name⟩

/-- The report on a file of a directory, which is read first. -/
def surveyFound (w : Workspace) (cancelled : Bool) (f : FoundFile) : Report :=
  if cancelled then .failed f.relative (Failure.cancelled f.relative).message
  else
    match w.files.readLossy f.path with
    | .error fault => .failed f.relative (Failure.unreadable f.path fault.message).message
    | .ok (content, tree) =>
      let context := Context.ofPath w.settings.context w.files f.path
      w.route { path := f.relative, content, context := some context, tree }

/-- The reports on files that were found, in the order of their paths. -/
def routeFound (w : Workspace) (cancelled : Bool) (found : List FoundFile) : List Report :=
  Report.inOrder (found.map (w.surveyFound cancelled))

def routeDirectory (w : Workspace) (root : String) (cancelled : Bool) : List Report :=
  w.routeFound cancelled (w.filesIn root)

end Workspace

end CodeSurvey
