import CodeSurvey.Files.Path
import CodeSurvey.Syntax.Tree

/-!
# File systems

A file system is a value: the files and directories below the working directory and below the root.
Looking up a path goes from directory to directory; what lies above the working directory is the
root. Names and paths have a greatest length. A file may carry the syntax tree of its text.
-/

namespace CodeSurvey

inductive Entry where
  | file (bytes : List UInt8) (tree : Option Tree)
  | directory
  deriving Repr

/-- A place below the root or below the working directory. -/
structure Location where
  rooted : Bool
  names : List String
  deriving Repr, DecidableEq

structure FileSystem where
  entries : List (Location × Entry) := []
  deriving Repr

inductive ReadFault where
  | missing
  | notDirectory
  | isDirectory
  | nameTooLong
  | nulInPath
  | notText
  deriving Repr, DecidableEq

def ReadFault.message : ReadFault → String
  | missing => "No such file or directory (os error 2)"
  | notDirectory => "Not a directory (os error 20)"
  | isDirectory => "Is a directory (os error 21)"
  | nameTooLong => "File name too long (os error 36)"
  | nulInPath => "file name contained an unexpected NUL byte"
  | notText => "stream did not contain valid UTF-8"

namespace FileSystem

/-- What stands at a location. The root and the working directory always exist. -/
def entry? (fs : FileSystem) (l : Location) : Option Entry :=
  if l.names.isEmpty then some .directory else fs.entries.lookup l

/-- Puts an entry at a location, in place of what was there. -/
def insert (fs : FileSystem) (l : Location) (e : Entry) : FileSystem :=
  ⟨fs.entries.filter (·.1 != l) ++ [(l, e)]⟩

/-- Makes a directory unless something is there. -/
def makeDirectory (fs : FileSystem) (l : Location) : FileSystem :=
  if (fs.entry? l).isSome then fs else fs.insert l .directory

def makeDirectories (fs : FileSystem) (l : Location) : FileSystem :=
  (List.range l.names.length).foldl
    (fun fs n => fs.makeDirectory { l with names := l.names.take (n + 1) }) fs

/-- Puts a file at a location and makes the directories that it lies in. -/
def addFile (fs : FileSystem) (l : Location) (bytes : List UInt8) (tree : Option Tree) : FileSystem :=
  (fs.makeDirectories { l with names := l.names.dropLast }).insert l (.file bytes tree)

/-- The greatest number of bytes in a name. -/
def nameLimit : Nat := 255

/-- The greatest number of bytes in a path. -/
def pathLimit : Nat := 4095

def step (fs : FileSystem) (l : Location) (piece : String) : Except ReadFault Location :=
  match fs.entry? l with
  | none => .error .missing
  | some (.file _ _) => .error .notDirectory
  | some .directory =>
    if piece = "." then .ok l
    else if piece = ".." then
      if l.names.isEmpty then .ok ⟨true, []⟩ else .ok { l with names := l.names.dropLast }
    else if nameLimit < piece.utf8ByteSize then .error .nameTooLong
    else
      let next : Location := { l with names := l.names ++ [piece] }
      if (fs.entry? next).isSome then .ok next else .error .missing

def follow (fs : FileSystem) (rooted : Bool) (pieces : List String) : Except ReadFault Location :=
  pieces.foldlM fs.step ⟨rooted, []⟩

/-- The pieces of a path as they are followed: a slash at the end asks for a directory. -/
def trail (text : String) : List String :=
  Path.pieces text ++ (if Text.endsWith "/" text then ["."] else [])

def locate (fs : FileSystem) (text : String) : Except ReadFault Location :=
  if text.toList.contains (Char.ofNat 0) then .error .nulInPath
  else if text.isEmpty then .error .missing
  else if pathLimit < text.utf8ByteSize then .error .nameTooLong
  else fs.follow (Text.startsWith "/" text) (trail text)

/-- The bytes of the file at a path, with the syntax tree of its text. -/
def read (fs : FileSystem) (text : String) : Except ReadFault (List UInt8 × Option Tree) := do
  let l ← fs.locate text
  match fs.entry? l with
  | some (.file bytes tree) => .ok (bytes, tree)
  | some .directory => .error .isDirectory
  | none => .error .missing

/-- The text of the file at a path; bytes that are no UTF-8 are replaced. -/
def readLossy (fs : FileSystem) (text : String) : Except ReadFault (String × Option Tree) := do
  let (bytes, tree) ← fs.read text
  .ok (Text.decodeLossy bytes, tree)

/-- The text of the file at a path, which has to be UTF-8. -/
def readText (fs : FileSystem) (text : String) : Except ReadFault String := do
  let (bytes, _) ← fs.read text
  match Text.decodeStrict? bytes with
  | some s => .ok s
  | none => .error .notText

def isFileAt (fs : FileSystem) (rooted : Bool) (pieces : List String) : Bool :=
  match fs.follow rooted pieces with
  | .ok l =>
    match fs.entry? l with
    | some (.file _ _) => true
    | _ => false
  | .error _ => false

def directoryAt? (fs : FileSystem) (rooted : Bool) (pieces : List String) : Option Location :=
  match fs.follow rooted pieces with
  | .ok l =>
    match fs.entry? l with
    | some .directory => some l
    | _ => none
  | .error _ => none

def list (fs : FileSystem) (l : Location) : List (String × Entry) :=
  fs.entries.filterMap fun (place, e) =>
    if place.rooted = l.rooted && place.names.dropLast = l.names then
      place.names.getLast?.map (·, e)
    else none

end FileSystem

end CodeSurvey
