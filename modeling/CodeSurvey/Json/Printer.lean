import CodeSurvey.Json.Basic
import CodeSurvey.Number.Shortest

/-!
# Writing JSON

The compact form has no blanks. The wide form puts each item and field on its own line, two spaces
further in than what encloses it. In texts only the quote, the backslash and control characters
are escaped.
-/

namespace CodeSurvey

namespace Json

/-- Four lower-case hexadecimal digits. -/
def hex4 (n : Nat) : List Char :=
  [n / 4096 % 16, n / 256 % 16, n / 16 % 16, n % 16].map Nat.digitChar

def escapeChar (c : Char) : List Char :=
  if c == '"' then ['\\', '"']
  else if c == '\\' then ['\\', '\\']
  else if c == '\n' then ['\\', 'n']
  else if c == '\r' then ['\\', 'r']
  else if c == '\t' then ['\\', 't']
  else if c.toNat == 8 then ['\\', 'b']
  else if c.toNat == 12 then ['\\', 'f']
  else if c.toNat < 32 then '\\' :: 'u' :: hex4 c.toNat
  else [c]

def quote (s : String) : String :=
  String.ofList ('"' :: s.toList.flatMap escapeChar ++ ['"'])

def intText (n : Int) : String :=
  (if n < 0 then "-" else "") ++ Decimal.digitText n.natAbs

/-- The text of a number; an infinite one has none and is written as null. -/
def numberText : JsonNumber → String
  | .int n => intText n
  | .float x => (x.text? .double).getD "null"

mutual

def compact : Json → String
  | null => "null"
  | bool b => if b then "true" else "false"
  | num n => numberText n
  | str s => quote s
  | arr items => "[" ++ compactItems items ++ "]"
  | obj fields => "\x7b" ++ compactFields fields ++ "\x7d"

def compactItems : List Json → String
  | [] => ""
  | [v] => compact v
  | v :: rest => compact v ++ "," ++ compactItems rest

def compactFields : List (String × Json) → String
  | [] => ""
  | [(k, v)] => quote k ++ ":" ++ compact v
  | (k, v) :: rest => quote k ++ ":" ++ compact v ++ "," ++ compactFields rest

end

/-- A line break and the indentation of a level. -/
def breakTo (level : Nat) : String := "\n" ++ String.ofList (List.replicate (2 * level) ' ')

mutual

/-- The wide form of a value at a level of indentation. -/
def wide (level : Nat) : Json → String
  | null => "null"
  | bool b => if b then "true" else "false"
  | num n => numberText n
  | str s => quote s
  | arr [] => "[]"
  | arr (v :: rest) => "[" ++ wideItems (level + 1) (v :: rest) ++ breakTo level ++ "]"
  | obj [] => "\x7b\x7d"
  | obj (f :: rest) => "\x7b" ++ wideFields (level + 1) (f :: rest) ++ breakTo level ++ "\x7d"

def wideItems (level : Nat) : List Json → String
  | [] => ""
  | [v] => breakTo level ++ wide level v
  | v :: rest => breakTo level ++ wide level v ++ "," ++ wideItems level rest

def wideFields (level : Nat) : List (String × Json) → String
  | [] => ""
  | [(k, v)] => breakTo level ++ quote k ++ ": " ++ wide level v
  | (k, v) :: rest => breakTo level ++ quote k ++ ": " ++ wide level v ++ "," ++ wideFields level rest

end

def pretty (v : Json) : String := wide 0 v

end Json

end CodeSurvey
