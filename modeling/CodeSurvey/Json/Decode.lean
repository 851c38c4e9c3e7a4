import CodeSurvey.Json.Basic

/-!
# Decoding JSON values

A record is given by an object, or by an array that lists its fields in order. Fields that no record
knows are passed over; whether an array may go on after the last field is up to the format. A value
of an enumeration is given by its name, or by an object whose only key is the name and whose value is
null.
-/

namespace CodeSurvey

namespace Json

/-- What becomes of the items of an array beyond the fields of the record that it lists. -/
inductive Surplus where
  | refused
  | ignored
  deriving Repr, DecidableEq

/-- The fields of a record whose fields are named in order. -/
def record? (surplus : Surplus) (names : List String) : Json → Option Fields
  | obj fields => some fields
  | arr items =>
    if surplus = .refused && names.length < items.length then none
    else some (Fields.ofList (names.zip items))
  | _ => none

/-- The name of a value of an enumeration. -/
def caseName? : Json → Option String
  | str s => some s
  | obj [(k, null)] => some k
  | _ => none

/-- A natural number of 64 bits. -/
def nat? : Json → Option Nat
  | num (.int n) => if 0 ≤ n && n ≤ 18446744073709551615 then some n.toNat else none
  | _ => none

def bool? : Json → Option Bool
  | bool b => some b
  | _ => none

def texts? (v : Json) : Option (List String) := v.items?.bind (·.mapM text?)

def single? : Json → Option Binary
  | num (.int n) => some (.ofInt .single n)
  | num (.float x) => some (x.convert .single)
  | _ => none

end Json

namespace Fields

/-- A field that has to be there. -/
def need {α : Type} (fields : Fields) (key : String) (decode : Json → Option α) : Option α :=
  (fields.get? key).bind decode

/-- A field that may be missing, but is decoded when it is there. -/
def orElse {α : Type} (fields : Fields) (key : String) (decode : Json → Option α) (default : α) :
    Option α :=
  match fields.get? key with
  | none => some default
  | some v => decode v

end Fields

end CodeSurvey
