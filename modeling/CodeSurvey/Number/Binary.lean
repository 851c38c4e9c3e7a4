/-!
# Binary floating-point numbers, exactly

A finite number is a sign, a mantissa and a power of two, all of them integers. The formats differ
in the width of the mantissa and in the range of the power; every operation works on exact
fractions and rounds once, to the nearest number of the format and to the even one of two.
-/

namespace CodeSurvey

/-- A binary format: bits of the mantissa, least and greatest power of two. -/
structure BinaryFormat where
  bits : Nat
  least : Int
  greatest : Int

def BinaryFormat.single : BinaryFormat := ⟨24, -149, 104⟩

def BinaryFormat.double : BinaryFormat := ⟨53, -1074, 971⟩

/-- `mantissa * 2 ^ exponent` with a sign, or an infinite number. -/
inductive Binary where
  | finite (negative : Bool) (mantissa : Nat) (exponent : Int)
  | infinite (negative : Bool)
  deriving Repr, DecidableEq, Inhabited

namespace Binary

def zero : Binary := finite false 0 0

/-- The quotient rounded to the nearest integer, halves to the even one. -/
def roundDiv (num den : Nat) : Nat :=
  let q := num / den
  let r := num % den
  if 2 * r < den then q else if den < 2 * r then q + 1 else q + q % 2

/-- `num / den / 2 ^ e` as a fraction of natural numbers. -/
def scaled (num den : Nat) (e : Int) : Nat × Nat :=
  if 0 ≤ e then (num, den * Nat.pow 2 e.toNat) else (num * Nat.pow 2 (-e).toNat, den)

/-- The power of two of the leading bit of a positive fraction. -/
def leadingBit (num den : Nat) : Int :=
  let guess := (num.log2 : Int) - (den.log2 : Int)
  let (n, d) := scaled num den guess
  if d ≤ n then guess else guess - 1

/-- The number of the format nearest to a fraction. -/
def ofFraction (format : BinaryFormat) (negative : Bool) (num den : Nat) : Binary :=
  if num = 0 then finite negative 0 0
  else
    let e := max format.least (leadingBit num den - format.bits + 1)
    let (n, d) := scaled num den e
    let q := roundDiv n d
    let (q, e) := if q = Nat.pow 2 format.bits then (q / 2, e + 1) else (q, e)
    if format.greatest < e then infinite negative else finite negative q e

/-- The magnitude of a finite number as a fraction. -/
def fraction (mantissa : Nat) (exponent : Int) : Nat × Nat :=
  if 0 ≤ exponent then (mantissa * Nat.pow 2 exponent.toNat, 1)
  else (mantissa, Nat.pow 2 (-exponent).toNat)

/-- The number of a format nearest to a number of another one. -/
def convert (format : BinaryFormat) : Binary → Binary
  | finite negative m e =>
    let (num, den) := fraction m e
    ofFraction format negative num den
  | infinite negative => infinite negative

/-- The number of a format nearest to an integer. -/
def ofInt (format : BinaryFormat) (n : Int) : Binary :=
  ofFraction format (n < 0) n.natAbs 1

/-- Product of two numbers of a format, rounded once. -/
def mul (format : BinaryFormat) : Binary → Binary → Binary
  | finite n₁ m₁ e₁, finite n₂ m₂ e₂ =>
    let (num, den) := fraction (m₁ * m₂) (e₁ + e₂)
    ofFraction format (n₁ != n₂) num den
  | finite n₁ _ _, infinite n₂ => infinite (n₁ != n₂)
  | infinite n₁, finite n₂ _ _ => infinite (n₁ != n₂)
  | infinite n₁, infinite n₂ => infinite (n₁ != n₂)

/-- Quotient of a number by a positive finite one, rounded once. -/
def div (format : BinaryFormat) : Binary → Binary → Binary
  | finite n₁ m₁ e₁, finite n₂ m₂ e₂ =>
    let (a, b) := fraction m₁ e₁
    let (c, d) := fraction m₂ e₂
    ofFraction format (n₁ != n₂) (a * d) (b * c)
  | finite n₁ _ _, infinite n₂ => finite (n₁ != n₂) 0 0
  | infinite n₁, finite n₂ _ _ => infinite (n₁ != n₂)
  | infinite n₁, infinite n₂ => infinite (n₁ != n₂)

def isZero : Binary → Bool
  | finite _ m _ => m == 0
  | infinite _ => false

def withSign (negative : Bool) : Binary → Binary
  | finite _ m e => finite negative m e
  | infinite _ => infinite negative

end Binary

end CodeSurvey
