import CodeSurvey.Json.Basic
import CodeSurvey.Number.Digits

/-!
# Reading JSON

The reader accepts strict JSON: no byte order mark, no control characters inside texts, surrogates
only in pairs, no number beyond double precision, and at most 127 levels of arrays and objects.
Of several fields with one key the last one counts.

## Implementation notes

A number with a fraction, a power of ten or too many digits is read in two steps: as many leading
digits as fit 64 bits are taken as an integer, and that integer is multiplied or divided once by a
power of ten. The result is a double-precision number near the written one, not always the nearest.
-/

namespace CodeSurvey

namespace Json

/-- Blanks between tokens. -/
def isGap (c : Char) : Bool := c == ' ' || c == '\n' || c == '\t' || c == '\r'

def skipGap (cs : List Char) : List Char := cs.dropWhile isGap

/-- The code of four hexadecimal digits. -/
def hexCode? : List Char → Option (Nat × List Char)
  | a :: b :: c :: d :: rest => do
    let a ← digitValue? 16 a
    let b ← digitValue? 16 b
    let c ← digitValue? 16 c
    let d ← digitValue? 16 d
    some (((a * 16 + b) * 16 + c) * 16 + d, rest)
  | _ => none

/-- The character of a hexadecimal escape, two escapes for a surrogate pair. -/
def readUnicodeEscape? (cs : List Char) : Option (Char × List Char) := do
  let (high, rest) ← hexCode? cs
  if 0xDC00 ≤ high && high ≤ 0xDFFF then none
  else if 0xD800 ≤ high && high ≤ 0xDBFF then
    match rest with
    | '\\' :: 'u' :: rest => do
      let (low, rest) ← hexCode? rest
      if 0xDC00 ≤ low && low ≤ 0xDFFF then
        some (Char.ofNat (0x10000 + (high - 0xD800) * 0x400 + (low - 0xDC00)), rest)
      else none
    | _ => none
  else some (Char.ofNat high, rest)

/-- The character of an escape, read after the backslash. -/
def readEscape? : List Char → Option (Char × List Char)
  | '"' :: rest => some ('"', rest)
  | '\\' :: rest => some ('\\', rest)
  | '/' :: rest => some ('/', rest)
  | 'b' :: rest => some (Char.ofNat 8, rest)
  | 'f' :: rest => some (Char.ofNat 12, rest)
  | 'n' :: rest => some ('\n', rest)
  | 'r' :: rest => some ('\r', rest)
  | 't' :: rest => some ('\t', rest)
  | 'u' :: rest => readUnicodeEscape? rest
  | _ => none

/-- A text up to its closing quote; `read` holds what was read, last character first. -/
def readString? : Nat → List Char → List Char → Option (String × List Char)
  | 0, _, _ => none
  | _ + 1, _, [] => none
  | fuel + 1, read, c :: rest =>
    if c == '"' then some (String.ofList read.reverse, rest)
    else if c == '\\' then do
      let (d, rest) ← readEscape? rest
      readString? fuel (d :: read) rest
    else if c.toNat < 32 then none
    else readString? fuel (c :: read) rest

/-- Greatest number of 64 bits without a sign. -/
def wordMax : Nat := 18446744073709551615

/-- Digits appended to a number while the result fits 64 bits; counts the digits taken. -/
def takeDigits (value count : Nat) : List Char → Nat × Nat × List Char
  | [] => (value, count, [])
  | c :: rest =>
    match digitValue? 10 c with
    | none => (value, count, c :: rest)
    | some d =>
      if value * 10 + d ≤ wordMax then takeDigits (value * 10 + d) (count + 1) rest
      else (value, count, c :: rest)

/-- Digits that are passed over, with their number. -/
def skipDigits (cs : List Char) : Nat × List Char :=
  ((cs.takeWhile Char.isDigit).length, cs.dropWhile Char.isDigit)

def powerOfTen (n : Nat) : Binary := .ofFraction .double false (Nat.pow 10 n) 1

/-- Divides by powers of ten up to 308 at a time; none is left over when the value is zero. -/
def shiftDown : Nat → Binary → Nat → Binary
  | 0, x, _ => x
  | fuel + 1, x, n =>
    if n ≤ 308 then x.div .double (powerOfTen n)
    else if x.isZero then x
    else shiftDown fuel (x.div .double (powerOfTen 308)) (n - 308)

/-- An integer times a power of ten in double precision, none if it is too large. -/
def floatOfParts? (negative : Bool) (significand : Nat) (exponent : Int) : Option Binary :=
  let x := Binary.ofInt .double significand
  let shifted : Option Binary :=
    if exponent < 0 then some (shiftDown (exponent.natAbs / 308 + 1) x exponent.natAbs)
    else if exponent ≤ 308 then
      match x.mul .double (powerOfTen exponent.toNat) with
      | .infinite _ => none
      | y => some y
    else if x.isZero then some x
    else none
  shifted.map (·.withSign negative)

/-- A power of ten after its mark. Powers beyond 32 bits only shift the value to zero or out of
range. -/
def readExponent? (negative : Bool) (significand : Nat) (start : Int) (cs : List Char) :
    Option (Binary × List Char) := do
  let (down, cs) := match cs with
    | '+' :: rest => (false, rest)
    | '-' :: rest => (true, rest)
    | _ => (false, cs)
  let digits := cs.takeWhile Char.isDigit
  let rest := cs.dropWhile Char.isDigit
  if digits.isEmpty then none
  else
    let power := digits.foldl (fun n c => n * 10 + (c.toNat - '0'.toNat)) 0
    if 2147483647 < power then
      if significand ≠ 0 && !down then none
      else some ((Binary.zero).withSign negative, rest)
    else do
      let x ← floatOfParts? negative significand (if down then start - power else start + power)
      some (x, rest)

/-- What may follow the digits of a number: a power of ten or nothing. -/
def readAfterDigits? (negative : Bool) (significand : Nat) (exponent : Int) :
    List Char → Option (Binary × List Char)
  | 'e' :: rest => readExponent? negative significand exponent rest
  | 'E' :: rest => readExponent? negative significand exponent rest
  | rest => (floatOfParts? negative significand exponent).map (·, rest)

def readFraction? (negative : Bool) (significand : Nat) (exponent : Int) (cs : List Char) :
    Option (Binary × List Char) :=
  let (value, count, rest) := takeDigits significand 0 cs
  let (skipped, rest) := skipDigits rest
  if count + skipped = 0 then none
  else readAfterDigits? negative value (exponent - count) rest

/-- A number after its sign. -/
def readNumber? (negative : Bool) (cs : List Char) : Option (JsonNumber × List Char) :=
  let (value, count, rest) := takeDigits 0 0 cs
  let (skipped, rest) := skipDigits rest
  if count = 0 then none
  else if 1 < count + skipped && cs.head? == some '0' then none
  else
    match rest with
    | '.' :: rest => (readFraction? negative value skipped rest).map fun p => (.float p.1, p.2)
    | 'e' :: rest => (readExponent? negative value skipped rest).map fun p => (.float p.1, p.2)
    | 'E' :: rest => (readExponent? negative value skipped rest).map fun p => (.float p.1, p.2)
    | rest =>
      if skipped ≠ 0 then (floatOfParts? negative value skipped).map fun x => (.float x, rest)
      else if !negative then some (.int value, rest)
      else if value = 0 || 9223372036854775808 < value then
        some (.float ((Binary.ofInt .double value).withSign true), rest)
      else some (.int (-(value : Int)), rest)

def after? : List Char → List Char → Option (List Char)
  | [], cs => some cs
  | a :: word, c :: cs => if a == c then after? word cs else none
  | _ :: _, [] => none

mutual

/-- A value; `depth` levels of arrays and objects may still be opened. -/
def readValue? : Nat → Nat → List Char → Option (Json × List Char)
  | 0, _, _ => none
  | fuel + 1, depth, cs =>
    match skipGap cs with
    | '"' :: rest => (readString? (rest.length + 1) [] rest).map fun p => (str p.1, p.2)
    | '[' :: rest =>
      if depth = 0 then none
      else
        match skipGap rest with
        | ']' :: rest => some (arr [], rest)
        | rest => (readItems? fuel (depth - 1) rest).map fun p => (arr p.1, p.2)
    | '\x7b' :: rest =>
      if depth = 0 then none
      else
        match skipGap rest with
        | '\x7d' :: rest => some (obj [], rest)
        | rest => (readFields? fuel (depth - 1) rest).map fun p => (obj (Fields.ofList p.1), p.2)
    | 't' :: rest => (after? ['r', 'u', 'e'] rest).map (bool true, ·)
    | 'f' :: rest => (after? ['a', 'l', 's', 'e'] rest).map (bool false, ·)
    | 'n' :: rest => (after? ['u', 'l', 'l'] rest).map (null, ·)
    | '-' :: rest => (readNumber? true rest).map fun p => (num p.1, p.2)
    | rest => (readNumber? false rest).map fun p => (num p.1, p.2)

/-- The items of an array up to its closing bracket. -/
def readItems? : Nat → Nat → List Char → Option (List Json × List Char)
  | 0, _, _ => none
  | fuel + 1, depth, cs => do
    let (v, rest) ← readValue? fuel depth cs
    match skipGap rest with
    | ',' :: rest => do
      let (vs, rest) ← readItems? fuel depth rest
      some (v :: vs, rest)
    | ']' :: rest => some ([v], rest)
    | _ => none

/-- The fields of an object up to its closing brace. -/
def readFields? : Nat → Nat → List Char → Option (List (String × Json) × List Char)
  | 0, _, _ => none
  | fuel + 1, depth, cs =>
    match skipGap cs with
    | '"' :: rest => do
      let (key, rest) ← readString? (rest.length + 1) [] rest
      match skipGap rest with
      | ':' :: rest => do
        let (v, rest) ← readValue? fuel depth rest
        match skipGap rest with
        | ',' :: rest => do
          let (fs, rest) ← readFields? fuel depth rest
          some ((key, v) :: fs, rest)
        | '\x7d' :: rest => some ([(key, v)], rest)
        | _ => none
      | _ => none
    | _ => none

end

/-- Levels of arrays and objects that a text may have. -/
def maxDepth : Nat := 127

def parse? (s : String) : Option Json :=
  match readValue? (2 * s.length + 2) maxDepth s.toList with
  | some (v, rest) => if (skipGap rest).isEmpty then some v else none
  | none => none

end Json

end CodeSurvey
