import CodeSurvey.Number.Binary

/-!
# Shortest decimals

The decimal of a binary number is the one with the fewest digits that still rounds to it, and the
nearest of those. The numbers that round to a given one form an interval around it, closed when
the mantissa is even; for each number of digits only the two neighbours on the decimal grid can
be nearest, so the first grid with a neighbour inside the interval gives the answer.
-/

namespace CodeSurvey

/-- `digits * 10 ^ exponent`. -/
structure Decimal where
  digits : Nat
  exponent : Int
  deriving Repr, DecidableEq

namespace Decimal

/-- The fraction `num / den` divided by a power of ten. -/
def scaledTen (num den : Nat) (e : Int) : Nat × Nat :=
  if 0 ≤ e then (num, den * Nat.pow 10 e.toNat) else (num * Nat.pow 10 (-e).toNat, den)

/-- Power of ten of the leading digit of a positive fraction below 1, looked for from `-tried` down. -/
def leadingBelowOne (num den : Nat) : Nat → Nat → Int
  | 0, tried => -(tried : Int)
  | fuel + 1, tried =>
    if den ≤ num * Nat.pow 10 tried then -(tried : Int) else leadingBelowOne num den fuel (tried + 1)

/-- Power of ten of the leading digit of a positive fraction. -/
def leadingDigit (num den : Nat) : Int :=
  if den ≤ num then ((Nat.toDigits 10 (num / den)).length : Int) - 1
  else leadingBelowOne num den 400 1

/-- The interval of fractions that round to a binary number, as numerators over one denominator. -/
structure Basin where
  low : Nat
  value : Nat
  high : Nat
  den : Nat
  closed : Bool

/-- The basin of a positive number of a format. -/
def Basin.of (format : BinaryFormat) (mantissa : Nat) (exponent : Int) : Basin :=
  let low := if mantissa = Nat.pow 2 (format.bits - 1) && format.least < exponent then 1 else 2
  let (unit, den) := Binary.fraction 1 (exponent - 2)
  ⟨(4 * mantissa - low) * unit, 4 * mantissa * unit, (4 * mantissa + 2) * unit, den,
    mantissa % 2 == 0⟩

/-- Whether `digits * 10 ^ exponent` lies in the basin. -/
def Basin.has (b : Basin) (d : Decimal) : Bool :=
  let (n, m) := if 0 ≤ d.exponent then (d.digits * Nat.pow 10 d.exponent.toNat, 1)
    else (d.digits, Nat.pow 10 (-d.exponent).toNat)
  let x := n * b.den
  if b.closed then b.low * m ≤ x && x ≤ b.high * m else b.low * m < x && x < b.high * m

/-- The neighbour of the basin's value on the grid `10 ^ exponent` that lies in the basin, the nearer
one of two and the even one of two at equal distance. -/
def Basin.neighbour? (b : Basin) (exponent : Int) : Option Decimal :=
  let (n, m) := scaledTen b.value b.den exponent
  let down : Decimal := ⟨n / m, exponent⟩
  let up : Decimal := ⟨n / m + 1, exponent⟩
  let r := n % m
  match b.has down && 0 < down.digits, b.has up with
  | true, true =>
    if 2 * r < m || (2 * r == m && down.digits % 2 == 0) then some down else some up
  | true, false => some down
  | false, true => some up
  | false, false => none

/-- The first neighbour found with `count`, `count + 1`, … digits. -/
def Basin.shortest (b : Basin) (leading : Int) : Nat → Nat → Decimal
  | 0, count => ⟨(scaledTen b.value b.den (leading - count + 1)).1, leading - count + 1⟩
  | fuel + 1, count =>
    match b.neighbour? (leading - count + 1) with
    | some d => d
    | none => b.shortest leading fuel (count + 1)

/-- Moves zeros at the end of the digits into the power of ten. -/
def normalize : Nat → Decimal → Decimal
  | 0, d => d
  | fuel + 1, d =>
    if d.digits ≠ 0 && d.digits % 10 == 0 then normalize fuel ⟨d.digits / 10, d.exponent + 1⟩ else d

/-- The shortest decimal of a positive number of a format. -/
def ofBinary (format : BinaryFormat) (mantissa : Nat) (exponent : Int) : Decimal :=
  let b := Basin.of format mantissa exponent
  normalize 20 (b.shortest (leadingDigit b.value b.den) 17 1)

def digitText (n : Nat) : String := String.ofList (Nat.toDigits 10 n)

def zeros (n : Nat) : String := String.ofList (List.replicate n '0')

/-- The text of a positive decimal: positional while the point lies within 16 places to the right
of the first digit or 5 to its left, always with a point; with a signed power of ten otherwise. -/
def text (d : Decimal) : String :=
  let digits := digitText d.digits
  let count : Int := digits.length
  let point := count + d.exponent
  if 0 ≤ d.exponent && point ≤ 16 then digits ++ zeros d.exponent.toNat ++ ".0"
  else if 0 < point && point ≤ 16 then
    String.ofList (digits.toList.take point.toNat) ++ "." ++
      String.ofList (digits.toList.drop point.toNat)
  else if -5 < point && point ≤ 0 then "0." ++ zeros (-point).toNat ++ digits
  else
    let power := point - 1
    let mark := (if power < 0 then "e-" else "e+") ++ digitText power.natAbs
    if count == 1 then digits ++ mark
    else String.ofList (digits.toList.take 1) ++ "." ++ String.ofList (digits.toList.drop 1) ++ mark

end Decimal

/-- The text of a finite number: its shortest decimal with the sign in front. -/
def Binary.text? (format : BinaryFormat) : Binary → Option String
  | .finite negative 0 _ => some (if negative then "-0.0" else "0.0")
  | .finite negative m e =>
    some ((if negative then "-" else "") ++ (Decimal.ofBinary format m e).text)
  | .infinite _ => none

end CodeSurvey
