import CodeSurvey.Config.Settings
import CodeSurvey.Files.FileSystem
import CodeSurvey.Text.Blank

/-!
# Contexts: which part of a code base a file belongs to

Going up from a file, the first directory that holds a project marker gives its own name, and a
source root gives the name of the directory below it on the way. Where neither is met, the context
is the directory of the file, and for a file without one the name of the file itself.
-/

namespace CodeSurvey.Context

/-- Whether a directory holds an entry with an extension, in any case of letters. -/
def hasExtension (fs : FileSystem) (directory : Location) (extension : String) : Bool :=
  (fs.list directory).any fun (name, _) =>
    (Path.extensionOf? name).any (Text.sameIgnoringCase extension)

/-- Whether the directory at a path holds what a marker asks for. -/
def matchesMarker (fs : FileSystem) (path : Path) (directory : Location) (marker : String) : Bool :=
  match Text.afterStart? "*." marker with
  | some extension => hasExtension fs directory extension
  | none =>
    if Text.startsWith "/" marker then fs.isFileAt true (FileSystem.trail marker)
    else
      let ending := if marker.isEmpty then ["."] else FileSystem.trail marker
      fs.isFileAt path.rooted (path.parts ++ ending)

def hasMarker (settings : ContextSettings) (fs : FileSystem) (path : Path) : Bool :=
  if path.parts.isEmpty && !path.rooted then false
  else
    match fs.directoryAt? path.rooted path.parts with
    | none => false
    | some directory => settings.markers.any (matchesMarker fs path directory)

def isSourceRoot (settings : ContextSettings) (name : String) : Bool :=
  settings.sourceRoots.any (Text.sameIgnoringCase name)

/-- The context met first on the way up through the directories of a path, nearest first. The next
of them is `height` parts above the file, and `below` is the one passed before it. -/
def climb (settings : ContextSettings) (fs : FileSystem) (path : Path) (height : Nat)
    (below : Option String) : List String → Option String
  | [] => none
  | directory :: rest =>
    if hasMarker settings fs (path.ancestor height) then some directory
    else
      match below with
      | some name =>
        if isSourceRoot settings directory then some name
        else climb settings fs path (height + 1) (some directory) rest
      | none => climb settings fs path (height + 1) (some directory) rest

def ofPath (settings : ContextSettings) (fs : FileSystem) (text : String) : String :=
  let path := Path.ofText text
  match path.names.reverse with
  | [] => ""
  | name :: directories =>
    match climb settings fs path 1 none directories with
    | some context => context
    | none => (directories.head?).getD (Path.stemOf name)

/-- A context given explicitly, unless it is blank. -/
def explicit? (given : Option String) : Option String :=
  (given.map Text.trim).filter (!·.isEmpty)

/-- The context of a path, where an explicit one comes first. -/
def resolve (settings : ContextSettings) (fs : FileSystem) (text : String) (given : Option String) :
    String :=
  match explicit? given with
  | some context => context
  | none => ofPath settings fs text

end CodeSurvey.Context
