import CodeSurvey.Json.Decode

/-!
# Relations between named things

A relation runs from one name to another. The names need not belong to elements of the same file.
-/

namespace CodeSurvey

inductive RelationKind where
  | imports
  | inherits
  | implements
  | defines
  | uses
  | injects
  | calls
  | acceptsType
  | returnsType
  | hasType
  | hasAttribute
  | catches
  | throws
  | usesGeneric
  | contains
  deriving Repr, DecidableEq

namespace RelationKind

/-- All kinds, in the order in which counts are listed. -/
def all : List RelationKind :=
  [imports, inherits, implements, defines, uses, injects, calls, acceptsType, returnsType, hasType,
    hasAttribute, catches, throws, usesGeneric, contains]

def key : RelationKind → String
  | imports => "Imports"
  | inherits => "Inherits"
  | implements => "Implements"
  | defines => "Defines"
  | uses => "Uses"
  | injects => "Injects"
  | calls => "Calls"
  | acceptsType => "AcceptsType"
  | returnsType => "ReturnsType"
  | hasType => "HasType"
  | hasAttribute => "HasAttribute"
  | catches => "Catches"
  | throws => "Throws"
  | usesGeneric => "UsesGeneric"
  | contains => "Contains"

def title : RelationKind → String
  | imports => "IMPORTS"
  | inherits => "INHERITS"
  | implements => "IMPLEMENTS"
  | defines => "DEFINES"
  | uses => "USES"
  | injects => "INJECTS"
  | calls => "CALLS"
  | acceptsType => "ACCEPTS_TYPE"
  | returnsType => "RETURNS_TYPE"
  | hasType => "HAS_TYPE"
  | hasAttribute => "HAS_ATTRIBUTE"
  | catches => "CATCHES"
  | throws => "THROWS"
  | usesGeneric => "USES_GENERIC"
  | contains => "CONTAINS"

def ofKey? (key : String) : Option RelationKind := all.find? (·.key == key)

end RelationKind

structure Relation where
  source : String
  target : String
  kind : RelationKind
  context : String
  properties : Fields := []
  deriving Repr

namespace Relation

def note (r : Relation) (key : String) (value : Json) : Relation :=
  { r with properties := r.properties.set key value }

def notes (r : Relation) (entries : List (String × Json)) : Relation :=
  entries.foldl (fun r e => r.note e.1 e.2) r

/-- Records the line where the relation is stated. -/
def atLine (r : Relation) (line : Nat) : Relation := r.note "line_number" (.nat line)

def toJson (r : Relation) : Json :=
  Json.ofFields [
    ("from", .str r.source), ("to", .str r.target), ("kind", .str r.kind.key),
    ("context", .str r.context), ("properties", .obj r.properties)]

def ofJson? (value : Json) : Option Relation := do
  let fields ← value.record? .refused ["from", "to", "kind", "context", "properties"]
  let source ← fields.need "from" Json.text?
  let target ← fields.need "to" Json.text?
  let kind ← fields.need "kind" fun v => v.caseName?.bind RelationKind.ofKey?
  let context ← fields.need "context" Json.text?
  let properties ← fields.orElse "properties" Json.fields? []
  some { source, target, kind, context, properties }

end Relation

end CodeSurvey
