import CodeSurvey.Code.TypeRef
import CodeSurvey.Model.Fact

/-!
# Facts that several front ends state
-/

namespace CodeSurvey

/-- A text being surveyed and its path. -/
structure SourceUnit where
  path : String
  text : String
  deriving Repr

/-- A name within an owner; what the file itself owns keeps its plain name. -/
def qualify (path owner name : String) : String :=
  if owner = path then name else owner ++ "." ++ name

/-- A relation with nothing more to say about it. -/
def Fact.edge (source target : String) (kind : RelationKind) (line : Nat) : Fact :=
  .relate source target kind line []

/-- The relations to the types that a type reference names: one of the kind to the outer type, and
one for each argument. -/
def typeFacts (types : TypeSystem) (source reference : String) (kind : RelationKind) (line : Nat) :
    List Fact :=
  let r := TypeRef.ofText types reference
  r.outer.toList.map (Fact.edge source · kind line) ++
    r.arguments.map (Fact.edge source · .usesGeneric line)

end CodeSurvey
