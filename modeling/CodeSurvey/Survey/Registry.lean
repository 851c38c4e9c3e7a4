import CodeSurvey.Frontend.Basic

/-!
# The registry: which front end knows an extension

Extensions are kept in lower case. A front end may be the first choice for an extension, or the one
tried after it; a front end that reads its files itself is a first choice too, so that registering
one of the two kinds takes the extension from the other.
-/

namespace CodeSurvey

/-- What knows each extension, the latest registration of an extension only. -/
structure Table (α : Type) where
  entries : List (String × α) := []

namespace Table

/-- What is registered for an extension in lower case. -/
def find? {α : Type} (t : Table α) (extension : String) : Option α := t.entries.lookup extension

def erase {α : Type} (t : Table α) (extension : String) : Table α :=
  ⟨t.entries.filter (·.1 != extension)⟩

/-- Registers something for an extension, in place of what was there. -/
def insert {α : Type} (t : Table α) (extension : String) (value : α) : Table α :=
  ⟨(t.erase extension).entries ++ [(extension, value)]⟩

def extensions {α : Type} (t : Table α) : List String := t.entries.map (·.1)

def values {α : Type} (t : Table α) : List α := t.entries.map (·.2)

end Table

structure Registry where
  primary : Table Frontend := {}
  fallback : Table Frontend := {}
  onDisk : Table FileFrontend := {}

/-- How a file is surveyed. -/
inductive Dispatch where
  /-- By a front end for texts, and by another if that finds nothing. -/
  | content (primary : Frontend) (fallback : Option Frontend)
  /-- By a front end that reads the file itself. -/
  | onDisk (frontend : FileFrontend)
  /-- By none: the file is kept as it is. -/
  | unstructured

def Dispatch.name : Dispatch → String
  | content primary _ => primary.language
  | onDisk frontend => frontend.language
  | unstructured => "unstructured"

namespace Registry

/-- Makes a front end the first choice for its extensions. -/
def register (r : Registry) (f : Frontend) : Registry :=
  f.extensions.foldl (fun r extension =>
    { r with
      onDisk := r.onDisk.erase (Text.lower extension)
      primary := r.primary.insert (Text.lower extension) f }) r

/-- Makes a front end the one tried after the first choice for its extensions. -/
def registerFallback (r : Registry) (f : Frontend) : Registry :=
  f.extensions.foldl (fun r extension =>
    { r with fallback := r.fallback.insert (Text.lower extension) f }) r

/-- Makes a front end that reads its files itself the first choice for its extensions. -/
def registerOnDisk (r : Registry) (f : FileFrontend) : Registry :=
  f.extensions.foldl (fun r extension =>
    { r with
      primary := r.primary.erase (Text.lower extension)
      onDisk := r.onDisk.insert (Text.lower extension) f }) r

def primaryFor? (r : Registry) (extension : String) : Option Frontend :=
  r.primary.find? (Text.lower extension)

def onDiskFor? (r : Registry) (extension : String) : Option FileFrontend :=
  r.onDisk.find? (Text.lower extension)

def knows (r : Registry) (extension : String) : Bool :=
  let extension := Text.lower extension
  (r.primary.find? extension).isSome || (r.onDisk.find? extension).isSome ||
    (r.fallback.find? extension).isSome

/-- How files with an extension in lower case are surveyed. -/
def dispatchExtension (r : Registry) (extension : String) : Dispatch :=
  match r.primary.find? extension, r.onDisk.find? extension, r.fallback.find? extension with
  | some f, _, fallback => .content f fallback
  | none, some f, _ => .onDisk f
  | none, none, some f => .content f none
  | none, none, none => .unstructured

/-- How a file is surveyed, by its extension alone. -/
def dispatch (r : Registry) (path : String) : Dispatch :=
  match extension? path with
  | some extension => r.dispatchExtension extension
  | none => .unstructured

/-- All extensions for which anything is registered, sorted. -/
def extensions (r : Registry) : List String :=
  (r.primary.extensions ++ r.onDisk.extensions ++ r.fallback.extensions).eraseDups.mergeSort
    fun a b => !(b < a)

/-- Keeps the first entry of each name. -/
def firstByName : List (String × List String) → List (String × List String)
  | [] => []
  | e :: rest => e :: (firstByName rest).filter (·.1 != e.1)

/-- The names of the front ends with the extensions they name, sorted by name. -/
def listing (r : Registry) : List (String × List String) :=
  let texts := (r.primary.values ++ r.fallback.values).map fun f => (f.language, f.extensions)
  let files := r.onDisk.values.map fun f => (f.language, f.extensions)
  (firstByName (texts ++ files)).mergeSort fun a b => !(b.1 < a.1)

end Registry

end CodeSurvey
