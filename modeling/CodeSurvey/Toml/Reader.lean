import CodeSurvey.Text.Utf8
import CodeSurvey.Toml.Quoted
import CodeSurvey.Toml.Scalar

/-!
# Reading TOML documents

A document is read line by line: headers open tables, and the other lines define the keys of the
table opened last. Arrays may stretch over several lines. Arrays and inline tables are nested less
than 80 deep, and keys have less than 80 parts.
-/

namespace CodeSurvey.Toml

/-- The least depth that is too deep. -/
def depthLimit : Nat := 80

def skipBlanks (cs : List Char) : List Char := cs.dropWhile isBlankChar

def skipComment : List Char → List Char
  | '#' :: cs => cs.dropWhile isPrintable
  | cs => cs

/-- Skips what may stand at the end of a line, and the line end. -/
def lineEnd? (cs : List Char) : Option (List Char) :=
  match skipComment (skipBlanks cs) with
  | [] => some []
  | rest => afterNewline? rest

/-- Skips blanks, line ends and comments. -/
def skipLayout (inComment : Bool) : List Char → List Char
  | [] => []
  | c :: cs =>
    if c = '\n' || (c = '\r' && cs.head? = some '\n') then skipLayout false cs
    else if inComment then if isPrintable c then skipLayout true cs else c :: cs
    else if c = '#' then skipLayout true cs
    else if isBlankChar c then skipLayout false cs
    else c :: cs

/-! ## Keys -/

def isKeyChar (c : Char) : Bool := c.isAlphanum || c == '-' || c == '_'

def keyPart? (cs : List Char) : Option (String × List Char) :=
  match cs with
  | '"' :: _ | '\'' :: _ => readLine? cs
  | _ =>
    let part := cs.takeWhile isKeyChar
    if part.isEmpty then none else some (String.ofList part, cs.dropWhile isKeyChar)

/-- Reads the parts of a key and the blanks around them, at most `fuel` parts. -/
def keyParts? : Nat → List Char → Option (List String × List Char)
  | 0, _ => none
  | fuel + 1, cs => do
    let (part, rest) ← keyPart? (skipBlanks cs)
    match skipBlanks rest with
    | '.' :: rest => do
      let (parts, rest) ← keyParts? fuel rest
      some (part :: parts, rest)
    | rest => some ([part], rest)

/-- A key: the parts on the way and the last one. -/
structure Key where
  path : List String
  last : String
  deriving Repr, DecidableEq

def key? (cs : List Char) : Option (Key × List Char) := do
  let (parts, rest) ← keyParts? (depthLimit - 1) cs
  some (⟨parts.dropLast, ← parts.getLast?⟩, rest)

/-! ## Values -/

mutual

/-- Reads a value that may be nested `depth` deep; each step takes some fuel. -/
def value? : Nat → Nat → List Char → Option (Toml × List Char)
  | 0, _, _ => none
  | fuel + 1, depth, cs =>
    match cs with
    | '[' :: rest =>
      match depth with
      | 0 => none
      | depth + 1 => (items? fuel depth rest).map fun (items, rest) => (.array items, rest)
    | '\x7b' :: rest =>
      match depth with
      | 0 => none
      | depth + 1 =>
        match skipBlanks rest with
        | '\x7d' :: rest => some (.inline [], rest)
        | rest => (fields? fuel depth ⟨.header, []⟩ rest).map fun (t, rest) => (.inline t.fields, rest)
    | '"' :: _ | '\'' :: _ => (readText? cs).map fun (s, rest) => (.text s, rest)
    | _ => readScalar? cs

def items? : Nat → Nat → List Char → Option (List Toml × List Char)
  | 0, _, _ => none
  | fuel + 1, depth, cs =>
    match skipLayout false cs with
    | ']' :: rest => some ([], rest)
    | cs => do
      let (item, rest) ← value? fuel depth cs
      match skipLayout false rest with
      | ',' :: rest => do
        let (items, rest) ← items? fuel depth rest
        some (item :: items, rest)
      | ']' :: rest => some ([item], rest)
      | _ => none

def fields? : Nat → Nat → Table → List Char → Option (Table × List Char)
  | 0, _, _, _ => none
  | fuel + 1, depth, t, cs => do
    let (key, rest) ← key? cs
    match rest with
    | '=' :: rest => do
      let (v, rest) ← value? fuel depth (skipBlanks rest)
      let t ← t.assign key.path key.last v
      match skipBlanks rest with
      | ',' :: rest => fields? fuel depth t rest
      | '\x7d' :: rest => some (t, rest)
      | _ => none
    | _ => none

end

/-! ## Documents -/

/-- A document being read: the outermost table and the path of the one opened last. -/
structure Draft where
  root : Table := ⟨.header, []⟩
  opened : List String := []
  deriving Repr

/-- Defines a key of the table opened last. -/
def Draft.assign (d : Draft) (key : Key) (v : Toml) : Option Draft := do
  let root ← d.root.alter false (·.assign key.path key.last v) d.opened
  some { d with root }

def Draft.openTable (d : Draft) (key : Key) : Option Draft := do
  let root ← d.root.openTable key.path key.last
  some ⟨root, key.path ++ [key.last]⟩

/-- Opens another of several tables of one name. -/
def Draft.openNext (d : Draft) (key : Key) : Option Draft := do
  let root ← d.root.openNext key.path key.last
  some ⟨root, key.path ++ [key.last]⟩

/-- Reads what stands on a line that is neither blank nor a comment. -/
def statement? (fuel : Nat) (d : Draft) (cs : List Char) : Option (Draft × List Char) :=
  match cs with
  | '[' :: '[' :: cs => do
    let (key, rest) ← key? cs
    match rest with
    | ']' :: ']' :: rest => some (← d.openNext key, rest)
    | _ => none
  | '[' :: cs => do
    let (key, rest) ← key? cs
    match rest with
    | ']' :: rest => some (← d.openTable key, rest)
    | _ => none
  | _ => do
    let (key, rest) ← key? cs
    match rest with
    | '=' :: rest => do
      let (v, rest) ← value? fuel (depthLimit - 1) (skipBlanks rest)
      some (← d.assign key v, rest)
    | _ => none

/-- Reads lines, at most `fuel` of them. -/
def lines? : Nat → Draft → List Char → Option Draft
  | 0, _, _ => none
  | fuel + 1, d, cs =>
    let cs := skipBlanks cs
    match cs with
    | [] => some d
    | '#' :: _ | '\n' :: _ | '\r' :: _ => do
      let rest ← lineEnd? cs
      lines? fuel d rest
    | _ => do
      let (d, rest) ← statement? (2 * cs.length + 2) d cs
      let rest ← lineEnd? rest
      lines? fuel d rest

def parse? (text : String) : Option Toml :=
  (lines? (text.length + 1) {} (Text.withoutMark text.toList)).map fun d => d.root.value

end CodeSurvey.Toml
