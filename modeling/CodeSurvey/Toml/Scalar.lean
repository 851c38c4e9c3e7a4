import CodeSurvey.Number.Digits
import CodeSurvey.Regex.Search
import CodeSurvey.Toml.Basic

/-!
# Scalars of TOML documents

Numbers, truth values and moments in time are written without quotes. Integers fit 64 bits with a
sign; low lines may stand between digits; a positive number with a fraction may not be beyond
double precision.
-/

namespace CodeSurvey.Toml

section Shapes

open Regex

/-- Digits of a class with single low lines between them. -/
def grouped (digit : CharClass) : Regex := all [set digit, many (all [opt (lit "_"), set digit])]

/-- A decimal number without needless zeros in front. -/
def plainDecimal : Regex :=
  any [all [set (.range '1' '9'), many (all [opt (lit "_"), set .digit])], lit "0"]

def sign : Regex := opt (set (.chars "+-"))

/-- A decimal integer; its groups are sign and digits. -/
def decimalInteger : Regex := all [start, group 1 sign, group 2 plainDecimal, stop]

/-- An integer of another base after its mark; group 1 is its digits. -/
def basedInteger (mark : String) (digit : CharClass) : Regex :=
  all [start, lit mark, group 1 (grouped digit), stop]

/-- A power of ten; its groups are sign and digits. -/
def power : Regex := all [set (.chars "eE"), group 4 sign, group 5 (grouped .digit)]

/-- A number with a fraction or a power of ten; its groups are sign, integer digits, digits of the
fraction, and those of the power. -/
def fractional : Regex :=
  all [
    start, group 1 sign, group 2 plainDecimal,
    any [power, all [lit ".", group 3 (grouped .digit), opt power]], stop]

/-- What is no number or beyond all numbers. -/
def special : Regex := all [start, sign, oneOf ["inf", "nan"], stop]

def digits (n : Nat) : Regex := all (List.replicate n (set .digit))

/-- A date; its groups are year, month and day. -/
def dateShape : Regex :=
  all [group 1 (digits 4), lit "-", group 2 (digits 2), lit "-", group 3 (digits 2)]

/-- A time; its groups are hour, minute and second. -/
def timeShape : Regex :=
  all [
    group 4 (digits 2), lit ":", group 5 (digits 2), lit ":", group 6 (digits 2),
    opt (all [lit ".", plus (set .digit)])]

/-- The distance to universal time; its groups are hours and minutes. -/
def offsetShape : Regex :=
  any [
    set (.chars "Zz"),
    all [set (.chars "+-"), group 7 (digits 2), lit ":", group 8 (digits 2)]]

end Shapes

/-- The integer with a sign and a size, if it fits 64 bits. -/
def signed? (negative : Bool) (size : Nat) : Option Int :=
  let n : Int := if negative then -(size : Int) else size
  if -9223372036854775808 ≤ n && n ≤ 9223372036854775807 then some n else none

/-- The number that a group of a match writes in a base. -/
def groupNumber (base : Nat) (m : Match) (n : Nat) : Nat := numberOfDigits base (m.group n).toList

/-- The integer that a word writes; the outer none means that it writes none. -/
def integer? (word : String) : Option (Option Int) :=
  let based (mark : String) (base : Nat) (digit : CharClass) : Option (Option Int) :=
    ((basedInteger mark digit).find? word).map fun m => signed? false (groupNumber base m 1)
  ((decimalInteger.find? word).map fun m => signed? (m.group 1 = "-") (groupNumber 10 m 2)).or
    ((based "0x" 16 (.anyOf [.digit, .range 'a' 'f', .range 'A' 'F'])).or
      ((based "0o" 8 (.range '0' '7')).or (based "0b" 2 (.range '0' '1'))))

/-- The least number that is beyond double precision. -/
def doubleLimit : Nat := Nat.pow 2 1024 - Nat.pow 2 970

/-- Whether an integer times a power of ten is beyond double precision. The lengths settle all but
numbers near the limit. -/
def isBeyond (size : Nat) (exponent : Int) : Bool :=
  let length : Int := (Nat.toDigits 10 size).length + exponent
  if size = 0 || length < 300 then false
  else if 320 < length then true
  else if 0 ≤ exponent then doubleLimit ≤ size * Nat.pow 10 exponent.toNat
  else doubleLimit * Nat.pow 10 exponent.natAbs ≤ size

/-- Whether a match of a number with a fraction stands for a number. -/
def isNumber (m : Match) : Bool :=
  let fraction := (m.group 3).toList.filter (· != '_')
  let size := numberOfDigits 10 ((m.group 2).toList ++ fraction)
  let power : Int := groupNumber 10 m 5
  let power := if m.group 4 = "-" then -power else power
  m.group 1 = "-" || !isBeyond size (power - fraction.length)

def daysOf (year month : Nat) : Nat :=
  if month = 2 then
    if year % 4 = 0 && (year % 100 ≠ 0 || year % 400 = 0) then 29 else 28
  else if [4, 6, 9, 11].contains month then 30
  else 31

/-- Whether the date of a match exists. -/
def isDate (m : Match) : Bool :=
  let month := groupNumber 10 m 2
  let day := groupNumber 10 m 3
  1 ≤ month && month ≤ 12 && 1 ≤ day && day ≤ daysOf (groupNumber 10 m 1) month

/-- Whether the time of a match exists; a minute may have a leap second. -/
def isTime (m : Match) : Bool :=
  groupNumber 10 m 4 ≤ 23 && groupNumber 10 m 5 ≤ 59 && groupNumber 10 m 6 ≤ 60

/-- Whether the distance to universal time of a match is less than a day. -/
def isOffset (m : Match) : Bool := groupNumber 10 m 7 ≤ 23 && groupNumber 10 m 8 ≤ 59

def isDateWord (word : String) : Bool :=
  ((Regex.all [.start, dateShape, .stop]).find? word).any isDate

/-- Whether a word is a date, a time, or both, then with or without the distance to universal
time. -/
def isMoment (word : String) : Bool :=
  let both := Regex.all [
    .start, dateShape, .set (.chars "Tt"), timeShape, .opt offsetShape, .stop]
  isDateWord word || ((Regex.all [.start, timeShape, .stop]).find? word).any isTime ||
    (both.find? word).any fun m => isDate m && isTime m && isOffset m

def scalar? (word : String) : Option Toml :=
  if word = "true" then some (.boolean true)
  else if word = "false" then some (.boolean false)
  else
    match integer? word with
    | some n => n.map .integer
    | none =>
      if (fractional.find? word).any isNumber || special.isMatch word then some .float
      else if isMoment word then some .moment
      else none

def isScalarChar (c : Char) : Bool := c.isAlphanum || "+-_.:".toList.contains c

/-- Reads a scalar. A date and a time may be divided by a single space. -/
def readScalar? (cs : List Char) : Option (Toml × List Char) :=
  let word := String.ofList (cs.takeWhile isScalarChar)
  let rest := cs.dropWhile isScalarChar
  let plain := (scalar? word).map (·, rest)
  match rest with
  | ' ' :: after =>
    let second := after.takeWhile isScalarChar
    if isDateWord word && !second.isEmpty then
      (scalar? (word ++ "T" ++ String.ofList second)).map (·, after.dropWhile isScalarChar)
    else plain
  | _ => plain

end CodeSurvey.Toml
