import CodeSurvey.Number.Binary

/-!
# JSON values

Objects keep their fields in ascending order of the keys, each key once. Numbers are integers where
they fit 64 bits, with or without a sign, and double-precision numbers otherwise.
-/

namespace CodeSurvey

inductive JsonNumber where
  | int (n : Int)
  | float (x : Binary)
  deriving Repr, DecidableEq

inductive Json where
  | null
  | bool (b : Bool)
  | num (n : JsonNumber)
  | str (s : String)
  | arr (items : List Json)
  | obj (fields : List (String × Json))
  deriving Repr

/-- Fields of an object in ascending order of the keys. -/
abbrev Fields := List (String × Json)

namespace Fields

/-- Puts a value under a key, in place of the one that was there. -/
def set (key : String) (value : Json) : Fields → Fields
  | [] => [(key, value)]
  | (k, v) :: rest =>
    if key < k then (key, value) :: (k, v) :: rest
    else if key = k then (key, value) :: rest
    else (k, v) :: set key value rest

def get? (key : String) (fields : Fields) : Option Json := fields.lookup key

def has (key : String) (fields : Fields) : Bool := (fields.get? key).isSome

def erase (key : String) (fields : Fields) : Fields := fields.filter (·.1 != key)

/-- Fields put in one after the other. -/
def ofList (entries : List (String × Json)) : Fields :=
  entries.foldl (fun fields e => set e.1 e.2 fields) []

end Fields

namespace Json

def ofFields (entries : List (String × Json)) : Json := obj (Fields.ofList entries)

def nat (n : Nat) : Json := num (.int n)

def strings (ss : List String) : Json := arr (ss.map str)

/-- A text, or null in place of none. -/
def optional (s : Option String) : Json := (s.map str).getD null

def text? : Json → Option String
  | str s => some s
  | _ => none

def items? : Json → Option (List Json)
  | arr items => some items
  | _ => none

def fields? : Json → Option Fields
  | obj fields => some fields
  | _ => none

def field? (key : String) (value : Json) : Option Json := value.fields?.bind (·.get? key)

def textField? (key : String) (value : Json) : Option String := (value.field? key).bind text?

end Json

end CodeSurvey
