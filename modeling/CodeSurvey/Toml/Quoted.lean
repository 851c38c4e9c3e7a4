import CodeSurvey.Number.Digits
import CodeSurvey.Toml.Basic

/-!
# Quoted texts of TOML documents

Texts stand in double quotes, with escapes, or in single quotes, without. Three quotes enclose a
text of several lines: a line end directly after them does not count, and up to two quotes may stand
before the closing ones.
-/

namespace CodeSurvey.Toml

/-- Blanks within a line. -/
def isBlankChar (c : Char) : Bool := c == ' ' || c == '\t'

/-- Characters that may stand in texts and comments: all but control characters other than the
tab. -/
def isPrintable (c : Char) : Bool := c == '\t' || (32 ≤ c.toNat && c.toNat ≠ 127)

def afterNewline? : List Char → Option (List Char)
  | '\n' :: cs => some cs
  | '\r' :: '\n' :: cs => some cs
  | _ => none

def escaped? : Char → Option Char
  | 'b' => some (Char.ofNat 8)
  | 't' => some '\t'
  | 'n' => some '\n'
  | 'f' => some (Char.ofNat 12)
  | 'r' => some '\r'
  | '"' => some '"'
  | '\\' => some '\\'
  | _ => none

/-- The character with a code, unless the code is that of a surrogate or too large. -/
def charOf? (code : Nat) : Option Char :=
  if code < 0xD800 || (0xDFFF < code && code < 0x110000) then some (Char.ofNat code) else none

/-- Where a reader of a text with escapes stands. -/
inductive Escape where
  | outside
  /-- After a backslash. -/
  | opened
  /-- After some of the digits of a code, with the number of those to come. -/
  | digits (left value : Nat)
  /-- After a backslash at the end of a line: blanks and line ends do not count. -/
  | skipping
  deriving Repr, DecidableEq

/-- Puts a character in front of a text that was read. -/
def push (c : Char) (read : Option (List Char × List Char)) : Option (List Char × List Char) :=
  read.map fun (cs, rest) => (c :: cs, rest)

/-- The end of a text of several lines: up to two more quotes belong to it. -/
def closing (quote : Char) : List Char → List Char × List Char
  | a :: b :: rest =>
    if a = quote && b = quote then ([quote, quote], rest)
    else if a = quote then ([quote], b :: rest)
    else ([], a :: b :: rest)
  | [a] => if a = quote then ([quote], []) else ([], [a])
  | [] => ([], [])

def blankAhead : List Char → Bool
  | [] => false
  | c :: cs => isBlankChar c || (afterNewline? (c :: cs)).isSome

/-- Where a reader stands before the given characters when blanks do not count. -/
def skip (cs : List Char) : Escape := if blankAhead cs then .skipping else .outside

/-- The next reading position after a backslash: a line end after it, blanks aside, is skipped. -/
def afterBackslash (multi : Bool) (cs : List Char) : Escape :=
  if multi && (afterNewline? (cs.dropWhile isBlankChar)).isSome then .skipping else .opened

/-- Reads a text in double quotes, of one line or of several, and what follows it. -/
def readBasic? (multi : Bool) : Escape → List Char → Option (List Char × List Char)
  | _, [] => none
  | .opened, c :: cs =>
    if c = 'u' then readBasic? multi (.digits 4 0) cs
    else if c = 'U' then readBasic? multi (.digits 8 0) cs
    else (escaped? c).bind fun e => push e (readBasic? multi .outside cs)
  | .digits left value, c :: cs =>
    (digitValue? 16 c).bind fun d =>
      if 1 < left then readBasic? multi (.digits (left - 1) (value * 16 + d)) cs
      else (charOf? (value * 16 + d)).bind fun e => push e (readBasic? multi .outside cs)
  | .skipping, c :: cs =>
    if isBlankChar c || c = '\n' then readBasic? multi (skip cs) cs
    else if c = '\r' then readBasic? multi .skipping cs
    else none
  | .outside, c :: cs =>
    if c = '"' then
      if !multi then some ([], cs)
      else
        match cs with
        | '"' :: '"' :: rest => some (closing '"' rest)
        | _ => push '"' (readBasic? multi .outside cs)
    else if c = '\\' then readBasic? multi (afterBackslash multi cs) cs
    else if multi && c = '\n' then push '\n' (readBasic? multi .outside cs)
    else if multi && c = '\r' && cs.head? = some '\n' then readBasic? multi .outside cs
    else if isPrintable c then push c (readBasic? multi .outside cs)
    else none

/-- Reads a text in single quotes, of one line or of several, and what follows it. -/
def readLiteral? (multi : Bool) : List Char → Option (List Char × List Char)
  | [] => none
  | c :: cs =>
    if c = '\'' then
      if !multi then some ([], cs)
      else
        match cs with
        | '\'' :: '\'' :: rest => some (closing '\'' rest)
        | _ => push '\'' (readLiteral? multi cs)
    else if multi && c = '\n' then push '\n' (readLiteral? multi cs)
    else if multi && c = '\r' && cs.head? = some '\n' then readLiteral? multi cs
    else if isPrintable c then push c (readLiteral? multi cs)
    else none

def withoutNewline (cs : List Char) : List Char := (afterNewline? cs).getD cs

def readLine? : List Char → Option (String × List Char)
  | '"' :: cs => (readBasic? false .outside cs).map fun (s, rest) => (String.ofList s, rest)
  | '\'' :: cs => (readLiteral? false cs).map fun (s, rest) => (String.ofList s, rest)
  | _ => none

def readText? : List Char → Option (String × List Char)
  | '"' :: '"' :: '"' :: cs =>
    (readBasic? true .outside (withoutNewline cs)).map fun (s, rest) => (String.ofList s, rest)
  | '\'' :: '\'' :: '\'' :: cs =>
    (readLiteral? true (withoutNewline cs)).map fun (s, rest) => (String.ofList s, rest)
  | cs => readLine? cs

end CodeSurvey.Toml
