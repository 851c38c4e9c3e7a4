import CodeSurvey.Json.Decode

/-!
# Elements: the structural units of a source file

An element is a file, a type or a member that a survey found. Nested elements carry the names of what
encloses them, joined by dots.
-/

namespace CodeSurvey

inductive ElementKind where
  | file
  | type
  | interface
  | method
  | property
  deriving Repr, DecidableEq

namespace ElementKind

/-- All kinds, in the order in which counts are listed. -/
def all : List ElementKind := [file, type, interface, method, property]

/-- The name used in data. -/
def key : ElementKind → String
  | file => "file"
  | type => "class"
  | interface => "interface"
  | method => "method"
  | property => "property"

/-- The name shown to people. -/
def title : ElementKind → String
  | file => "File"
  | type => "Class"
  | interface => "Interface"
  | method => "Method"
  | property => "Property"

def ofKey? (key : String) : Option ElementKind := all.find? (·.key == key)

end ElementKind

/-- What a source file declares: a unit with its text, where it starts and what is known of it. -/
structure Declaration where
  kind : ElementKind
  name : String
  content : String := ""
  lineNumber : Nat := 1
  summary : String := ""
  signature : String := ""
  tags : List String := []
  dependencies : List String := []
  metadata : Fields := []
  deriving Repr

/-- A declaration together with the file it stands in and the context of that file. -/
structure Element extends Declaration where
  filePath : String
  context : String
  deriving Repr

def addOnce (item : String) (items : List String) : List String :=
  if items.contains item then items else items ++ [item]

namespace Declaration

def addTag (d : Declaration) (tag : String) : Declaration := { d with tags := addOnce tag d.tags }

def addTags (d : Declaration) (tags : List String) : Declaration := tags.foldl addTag d

/-- Adds the name of something the declaration depends on, once. -/
def addDependency (d : Declaration) (name : String) : Declaration :=
  { d with dependencies := addOnce name d.dependencies }

def addDependencies (d : Declaration) (names : List String) : Declaration :=
  names.foldl addDependency d

def hasTag (d : Declaration) (tag : String) : Bool := d.tags.contains tag

def note (d : Declaration) (key : String) (value : Json) : Declaration :=
  { d with metadata := d.metadata.set key value }

/-- Puts a text into the metadata if there is one. -/
def noteText? (d : Declaration) (key : String) (text : Option String) : Declaration :=
  match text with
  | some t => d.note key (.str t)
  | none => d

/-- The element that a declaration makes in a file. -/
def toElement (d : Declaration) (filePath context : String) : Element :=
  { toDeclaration := d, filePath, context }

end Declaration

namespace Element

def update (e : Element) (f : Declaration → Declaration) : Element :=
  { e with toDeclaration := f e.toDeclaration }

def toJson (e : Element) : Json :=
  Json.ofFields [
    ("kind", .str e.kind.key), ("name", .str e.name), ("file_path", .str e.filePath),
    ("content", .str e.content), ("line_number", .nat e.lineNumber), ("summary", .str e.summary),
    ("signature", .str e.signature), ("tags", .strings e.tags),
    ("dependencies", .strings e.dependencies), ("metadata", .obj e.metadata),
    ("context", .str e.context)]

def fieldNames : List String :=
  ["kind", "name", "file_path", "content", "line_number", "summary", "signature", "tags",
    "dependencies", "metadata", "context"]

def ofJson? (value : Json) : Option Element := do
  let fields ← value.record? .refused fieldNames
  let kind ← fields.need "kind" fun v => v.caseName?.bind ElementKind.ofKey?
  let name ← fields.need "name" Json.text?
  let filePath ← fields.need "file_path" Json.text?
  let content ← fields.need "content" Json.text?
  let lineNumber ← fields.need "line_number" Json.nat?
  let summary ← fields.orElse "summary" Json.text? ""
  let signature ← fields.orElse "signature" Json.text? ""
  let tags ← fields.orElse "tags" Json.texts? []
  let dependencies ← fields.orElse "dependencies" Json.texts? []
  let metadata ← fields.orElse "metadata" Json.fields? []
  let context ← fields.need "context" Json.text?
  some { kind, name, filePath, content, lineNumber, summary, signature, tags, dependencies,
         metadata, context }

end Element

end CodeSurvey
