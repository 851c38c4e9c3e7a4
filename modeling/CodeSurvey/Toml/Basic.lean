import CodeSurvey.Json.Basic

/-!
# TOML documents

A document is a table of named values. Tables come about in three ways: by a header of their own, on
the way to another table, or by a dotted key; how one came about decides what may still be added.
Nothing may be defined twice.
-/

namespace CodeSurvey

/-- How a table came about. -/
inductive Origin where
  /-- By a header of its own. -/
  | header
  /-- On the way to a table with a header. -/
  | passage
  /-- By a dotted key. -/
  | dotted
  deriving Repr, DecidableEq

/-- TOML values. Numbers with a fraction and moments in time are not told apart any further. -/
inductive Toml where
  | text (s : String)
  | integer (n : Int)
  | float
  | boolean (b : Bool)
  | moment
  | array (items : List Toml)
  | inline (fields : List (String × Toml))
  | table (origin : Origin) (fields : List (String × Toml))
  | tables (items : List Toml)
  deriving Repr

namespace Toml

/-- A table that is still being filled. -/
structure Table where
  origin : Origin
  fields : List (String × Toml) := []
  deriving Repr

namespace Table

def get? (t : Table) (key : String) : Option Toml := t.fields.lookup key

/-- Puts a value under a key, in place of what was there. -/
def put (t : Table) (key : String) (value : Toml) : Table :=
  { t with fields := t.fields.filter (·.1 != key) ++ [(key, value)] }

def value (t : Table) : Toml := .table t.origin t.fields

/-- Changes the table that a path leads to, where tables that are missing on the way come about in
the given manner. A path leads through the last of several tables of one name. It leads nowhere
through other values, nor for dotted keys through tables with headers. -/
def alter (byDots : Bool) (change : Table → Option Table) : List String → Table → Option Table
  | [], t => change t
  | key :: path, t =>
    match t.get? key with
    | none => do
      let child ← alter byDots change path ⟨if byDots then .dotted else .passage, []⟩
      some (t.put key child.value)
    | some (.table origin fields) =>
      if byDots && origin = .header then none
      else do
        let child ← alter byDots change path ⟨origin, fields⟩
        some (t.put key child.value)
    | some (.tables items) =>
      match items.getLast? with
      | some (.table origin fields) => do
        let child ← alter byDots change path ⟨origin, fields⟩
        some (t.put key (.tables (items.dropLast ++ [child.value])))
      | _ => none
    | some _ => none

/-- Puts a value under a key that is not taken; what a dotted key leads to has to be a table of
dotted keys. -/
def define (t : Table) (dots : Bool) (key : String) (value : Toml) : Option Table :=
  if (t.origin = .dotted) ≠ dots then none
  else if (t.get? key).isSome then none
  else some (t.put key value)

/-- Defines the value of a key with dots between its parts. -/
def assign (t : Table) (path : List String) (key : String) (value : Toml) : Option Table :=
  t.alter true (·.define (!path.isEmpty) key value) path

/-- Gives a table its header. -/
def openTable (t : Table) (path : List String) (key : String) : Option Table :=
  t.alter false (fun parent =>
    match parent.get? key with
    | none => some (parent.put key (.table .header []))
    | some (.table .passage fields) => some (parent.put key (.table .header fields))
    | some _ => none) path

/-- Adds another table to those of one name. -/
def openNext (t : Table) (path : List String) (key : String) : Option Table :=
  t.alter false (fun parent =>
    match parent.get? key with
    | none => some (parent.put key (.tables [.table .header []]))
    | some (.tables items) => some (parent.put key (.tables (items ++ [.table .header []])))
    | some _ => none) path

end Table

mutual

/-- The value as data. A moment is a record of which no entry is known, and a number with a fraction
is nothing that is asked for. -/
def toJson : Toml → Json
  | text s => .str s
  | integer n => .num (.int n)
  | float => .null
  | boolean b => .bool b
  | moment => .obj []
  | array items => .arr (itemsToJson items)
  | inline fields => .ofFields (fieldsToJson fields)
  | table _ fields => .ofFields (fieldsToJson fields)
  | tables items => .arr (itemsToJson items)

def itemsToJson : List Toml → List Json
  | [] => []
  | v :: rest => toJson v :: itemsToJson rest

def fieldsToJson : List (String × Toml) → List (String × Json)
  | [] => []
  | (key, v) :: rest => (key, toJson v) :: fieldsToJson rest

end

end Toml

end CodeSurvey
