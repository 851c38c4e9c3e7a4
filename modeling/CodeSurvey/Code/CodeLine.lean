import CodeSurvey.Text.Blank
import CodeSurvey.Text.Search

/-!
# Code lines and blocks

A code line is a line without the inside of its string literals and without its comment, so that
braces and calls in them do not count. A block ends on the line that closes its first brace.
-/

namespace CodeSurvey.Code

/-- Drops the inside of strings and stops at the comment mark; `quote` is the quote of the string
being read. Where the comment mark is an apostrophe, apostrophes do not quote and a backslash is a
character like any other. -/
def codeChars (comment : List Char) (quote : Option Char) : List Char → List Char
  | [] => []
  | c :: cs =>
    match quote with
    | some q =>
      if c == '\\' && comment != ['\''] then
        match cs with
        | [] => []
        | _ :: cs => codeChars comment quote cs
      else if c == q then c :: codeChars comment none cs
      else codeChars comment quote cs
    | none =>
      if comment.isPrefixOf (c :: cs) then []
      else if c == '"' || (c == '\'' && comment != ['\'']) then c :: codeChars comment (some c) cs
      else c :: codeChars comment none cs

/-- A line without the inside of its strings and without its comment. -/
def codeLine (comment line : String) : String :=
  String.ofList (codeChars comment.toList none line.toList)

/-- How far the braces of a block have been read: how many are open, and whether one was. -/
structure BlockState where
  depth : Int := 0
  opened : Bool := false
  deriving Repr, DecidableEq

/-- Reads the characters of a line; none when a semicolon ends a declaration without a block. -/
def BlockState.read (b : BlockState) : List Char → Option BlockState
  | [] => some b
  | '\x7b' :: cs => read { depth := b.depth + 1, opened := true } cs
  | '\x7d' :: cs => read { b with depth := b.depth - 1 } cs
  | ';' :: cs => if !b.opened && b.depth == 0 then none else read b cs
  | _ :: cs => read b cs

/-- Index of the line that closes the block, where the first of the lines has index `i` and the
last line of all has index `last`. -/
def blockEndFrom (last : Nat) (b : BlockState) : List String → Nat → Nat
  | [], _ => last
  | line :: lines, i =>
    match b.read line.toList with
    | none => i
    | some b =>
      if !b.opened && Text.contains "=>" line then
        if Text.endsWith ";" (Text.trimEnd line) then i else min (i + 1) last
      else if b.opened && b.depth ≤ 0 then i
      else blockEndFrom last b lines (i + 1)

/-- Index of the line that closes the first brace block from line `start` on. A declaration without
a block ends at its semicolon, one with an arrow on its own or the next line. -/
def blockEnd (lines : List String) (start : Nat) : Nat :=
  blockEndFrom (lines.length - 1) {} (lines.drop start) start

end CodeSurvey.Code
