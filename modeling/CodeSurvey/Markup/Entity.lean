import CodeSurvey.Number.Digits
import CodeSurvey.Number.Shortest

/-!
# References in markup

In a text of markup an ampersand starts a reference that a semicolon ends: the name of one of five
characters, or the number of a character in decimal or hexadecimal digits.
-/

namespace CodeSurvey.Markup

inductive NumberFault where
  | signed
  | empty
  | badDigit
  | tooLarge
  | noCharacter (code : Nat)
  | zero
  deriving Repr, DecidableEq

def NumberFault.message : NumberFault → String
  | signed => "unexpected number sign"
  | empty => "cannot parse integer from empty string"
  | badDigit => "invalid digit found in string"
  | tooLarge => "number too large to fit in target type"
  | noCharacter code => "`" ++ Decimal.digitText code ++ "` is not a valid codepoint"
  | zero => "0x0 character is not permitted in XML"

/-- What is wrong with a reference; the stretch of bytes it covers is counted from the start of the
text. -/
inductive EntityFault where
  | unknown (start stop : Nat) (name : String)
  | unterminated (start stop : Nat)
  | badNumber (fault : NumberFault)
  deriving Repr, DecidableEq

def rangeText (start stop : Nat) : String :=
  Decimal.digitText start ++ ".." ++ Decimal.digitText stop

def EntityFault.message : EntityFault → String
  | unknown start stop name => "at " ++ rangeText start stop ++ ": unrecognized entity `" ++ name ++ "`"
  | unterminated start stop =>
    "Error while escaping character at range " ++ rangeText start stop ++
      ": Cannot find ';' after '&'"
  | badNumber fault => "invalid character reference: " ++ fault.message

/-- Reads digits after the value of those before; the number has to fit 32 bits. -/
def readDigits (base : Nat) (value : Nat) : List Char → Except NumberFault Nat
  | [] => .ok value
  | c :: cs =>
    match digitValue? base c with
    | none => .error .badDigit
    | some d =>
      let value := value * base + d
      if 4294967295 < value then .error .tooLarge else readDigits base value cs

def readNumber (base : Nat) : List Char → Except NumberFault Nat
  | [] => .error .empty
  | c :: cs => if c = '+' || c = '-' then .error .signed else readDigits base 0 (c :: cs)

def charOfCode (code : Nat) : Except NumberFault Char :=
  if code = 0 then .error .zero
  else if code < 0xD800 || (0xDFFF < code && code < 0x110000) then .ok (Char.ofNat code)
  else .error (.noCharacter code)

/-- The character that a reference by number stands for. -/
def numberedChar : List Char → Except NumberFault Char
  | 'x' :: digits => readNumber 16 digits >>= charOfCode
  | digits => readNumber 10 digits >>= charOfCode

def namedChar? : String → Option Char
  | "lt" => some '<'
  | "gt" => some '>'
  | "amp" => some '&'
  | "apos" => some '\''
  | "quot" => some '"'
  | _ => none

/-- The character that a reference stands for; the reference starts at a byte. -/
def resolve (start : Nat) (name : List Char) : Except EntityFault Char :=
  match name with
  | '#' :: digits => (numberedChar digits).mapError .badNumber
  | _ =>
    let text := String.ofList name
    match namedChar? text with
    | some c => .ok c
    | none => .error (.unknown (start + 1) (start + 1 + text.utf8ByteSize) text)

/-- Replaces references; `pending` is the one being read, with the byte at which it starts, `offset`
is the byte reached and `total` the number of all bytes. -/
def unescapeFrom (total : Nat) (pending : Option (Nat × List Char)) (offset : Nat) :
    List Char → Except EntityFault (List Char)
  | [] =>
    match pending with
    | none => .ok []
    | some (start, _) => .error (.unterminated start total)
  | c :: cs =>
    let next := offset + c.utf8Size
    match pending with
    | none =>
      if c = '&' then unescapeFrom total (some (offset, [])) next cs
      else (unescapeFrom total none next cs).map (c :: ·)
    | some (start, name) =>
      if c = ';' then do
        let resolved ← resolve start name.reverse
        let rest ← unescapeFrom total none next cs
        .ok (resolved :: rest)
      else if c = '&' then .error (.unterminated start total)
      else unescapeFrom total (some (start, c :: name)) next cs

def unescape (text : String) : Except EntityFault String :=
  (unescapeFrom text.utf8ByteSize none 0 text.toList).map String.ofList

end CodeSurvey.Markup
