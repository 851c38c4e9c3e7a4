import CodeSurvey.Regex.Search
import CodeSurvey.Text.Search

/-!
# References to types

A reference to a type is read by its names alone: the first is the outer type, the others are its
arguments. Names built into the language are left out.
-/

namespace CodeSurvey

/-- Languages with built-in types of their own. -/
inductive TypeSystem where
  | csharp
  | visualBasic
  | typescript
  | python
  | dart
  deriving Repr, DecidableEq

namespace TypeSystem

/-- The names that are built in, words of the type grammar included. -/
def builtin : TypeSystem → List String
  | csharp =>
    ["bool", "byte", "sbyte", "char", "decimal", "double", "float", "int", "uint", "nint", "nuint",
      "long", "ulong", "short", "ushort", "object", "string", "void", "dynamic", "var", "String",
      "Int16", "Int32", "Int64", "UInt32", "UInt64", "Boolean", "Object", "Double", "Single",
      "Decimal", "Byte", "Char"]
  | visualBasic =>
    ["Boolean", "Byte", "Char", "Date", "Decimal", "Double", "Integer", "Long", "Object", "SByte",
      "Short", "Single", "String", "UInteger", "ULong", "UShort", "Of"]
  | typescript =>
    ["string", "number", "boolean", "any", "unknown", "void", "never", "undefined", "null", "object",
      "bigint", "symbol", "String", "Number", "Boolean", "Object", "keyof", "typeof", "readonly",
      "infer", "extends", "is", "asserts", "unique"]
  | python =>
    ["int", "str", "float", "bool", "bytes", "bytearray", "complex", "None", "object", "list",
      "dict", "set", "frozenset", "tuple", "type", "Any", "Optional", "Union", "List", "Dict",
      "Set", "Tuple", "Type", "Callable", "Iterable", "Iterator", "Sequence", "Mapping", "Literal",
      "Self"]
  | dart =>
    ["int", "double", "num", "String", "bool", "dynamic", "void", "Object", "Null", "Never", "var",
      "final", "const", "late", "required"]

/-- Whether the last part of a dotted name is built in. Visual Basic does not tell cases apart. -/
def isBuiltin (types : TypeSystem) (name : String) : Bool :=
  let last := Text.afterLast '.' name
  match types with
  | visualBasic => types.builtin.any (Text.sameIgnoringCase last)
  | _ => types.builtin.contains last

end TypeSystem

/-- A reference to a type: its outer type unless built in, and its arguments that are not. -/
structure TypeRef where
  outer : Option String
  arguments : List String
  deriving Repr, DecidableEq

namespace TypeRef

open Regex in
def dottedName : Regex :=
  all [set .nameStart, many (set (.anyOf [.letter, .digit, .chars "_."]))]

/-- The dotted names of a reference, without dots at their ends. -/
def names (text : String) : List String :=
  ((dottedName.findAll text).map fun m => Text.trimWhere (· == '.') m.text).filter (!·.isEmpty)

/-- Reads a reference such as `Task<IList<Order>>`. -/
def ofText (types : TypeSystem) (text : String) : TypeRef :=
  match names text with
  | [] => ⟨none, []⟩
  | first :: rest =>
    { outer := if types.isBuiltin first then none else some first
      arguments := ((rest.filter fun t => !types.isBuiltin t).foldl
        (fun seen t => if seen.contains t then seen else seen ++ [t]) []) }

/-- Whether the last part of a dotted name is a capital I followed by a capital letter. -/
def isInterfaceName (name : String) : Bool :=
  match (Text.afterLast '.' name).toList with
  | 'I' :: c :: _ => c.isUpper
  | _ => false

/-- A name without its type arguments. -/
def baseName (name : String) : String :=
  Text.trim (Text.beforeFirst (fun c => c == '<' || c == '[' || c == '(') name)

end TypeRef

end CodeSurvey
