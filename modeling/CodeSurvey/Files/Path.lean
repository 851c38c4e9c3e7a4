import CodeSurvey.Text.Letters
import CodeSurvey.Text.Search

/-!
# Paths

A path is read as its parts: names, `..`, and a `.` at the very start of a relative path. Repeated
slashes and other dots do not count. The extension of a name is what follows its last dot, unless
nothing stands before that dot.
-/

namespace CodeSurvey

/-- The parts of a path, and whether it starts at the root. -/
structure Path where
  rooted : Bool
  parts : List String
  deriving Repr, DecidableEq

namespace Path

/-- The pieces of a path between slashes, without empty ones. -/
def pieces (text : String) : List String := (Text.split '/' text).filter (!·.isEmpty)

def ofText (text : String) : Path :=
  let rooted := Text.startsWith "/" text
  let parts :=
    match pieces text with
    | [] => []
    | first :: rest =>
      (if first = "." && rooted then [] else [first]) ++ rest.filter (· != ".")
  ⟨rooted, parts⟩

def isName (part : String) : Bool := part != "." && part != ".."

def names (p : Path) : List String := p.parts.filter isName

/-- The path without its last `count` parts. -/
def ancestor (p : Path) (count : Nat) : Path := { p with parts := p.parts.take (p.parts.length - count) }

def fileName? (p : Path) : Option String := p.parts.getLast?.filter isName

/-- Cuts a name at its last dot, unless nothing stands before it. -/
def cutName (name : String) : String × Option String :=
  match Text.cutAtLast? (· == '.') name with
  | some (stem, extension) => if stem.isEmpty then (name, none) else (stem, some extension)
  | none => (name, none)

def stemOf (name : String) : String := (cutName name).1

def extensionOf? (name : String) : Option String := (cutName name).2

end Path

def extensionAsWritten? (path : String) : Option String :=
  (Path.ofText path).fileName?.bind Path.extensionOf?

def extension? (path : String) : Option String := (extensionAsWritten? path).map Text.lower

end CodeSurvey
