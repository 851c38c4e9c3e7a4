/-!
# Digits

Values of digits in bases up to sixteen, and numbers written with them.
-/

namespace CodeSurvey

/-- The value of a digit in a base of at most sixteen. -/
def digitValue? (base : Nat) (c : Char) : Option Nat :=
  let value :=
    if '0' ≤ c && c ≤ '9' then some (c.toNat - '0'.toNat)
    else if 'a' ≤ c && c ≤ 'f' then some (c.toNat - 'a'.toNat + 10)
    else if 'A' ≤ c && c ≤ 'F' then some (c.toNat - 'A'.toNat + 10)
    else none
  value.filter (· < base)

/-- The number that the digits among some characters write. -/
def numberOfDigits (base : Nat) (cs : List Char) : Nat :=
  (cs.filterMap (digitValue? base)).foldl (fun n d => n * base + d) 0

end CodeSurvey
