import CodeSurvey.Regex.Basic
import CodeSurvey.Text.Lines

/-!
# Searching a text for matches

A search finds the leftmost position at which the expression matches and takes the preferred match
there. Going through all matches, each search starts where the last match ended; a match that is
empty and stands directly at that end is passed over.
-/

namespace CodeSurvey

/-- A match: where it starts and ends, what it reads, and its captured groups. -/
structure Match where
  start : Nat
  stop : Nat
  chars : List Char
  groups : List (Nat × Capture)
  deriving Repr, DecidableEq

namespace Match

def text (m : Match) : String := String.ofList m.chars

/-- The text of a group, none if the group took no part in the match. -/
def group? (m : Match) (n : Nat) : Option String :=
  (m.groups.lookup n).map fun c => String.ofList c.chars

/-- The text of a group, empty if the group took no part in the match. -/
def group (m : Match) (n : Nat) : String := (m.group? n).getD ""

def line (m : Match) (text : String) : Nat := Text.lineOfIndex text m.start

end Match

namespace Regex

/-- The match that starts at a position, with the position where it ends. -/
def matchAt (bound : Nat) (r : Regex) (s : Cursor) : Option (Match × Cursor) :=
  r.run bound { s with groups := [] } fun t =>
    some (⟨s.index, t.index, s.rest.take (t.index - s.index), t.groups⟩, t)

/-- The leftmost match from a position on, given by what precedes and what follows it. -/
def searchFrom (bound : Nat) (r : Regex) (before : Option Char) :
    List Char → Nat → Option (Match × Cursor)
  | [], i => r.matchAt bound ⟨before, [], i, []⟩
  | c :: cs, i =>
    (r.matchAt bound ⟨before, c :: cs, i, []⟩).orElse fun _ =>
      searchFrom bound r (some c) cs (i + 1)

/-- The leftmost match from a cursor on. -/
def search (bound : Nat) (r : Regex) (s : Cursor) : Option (Match × Cursor) :=
  r.searchFrom bound s.before s.rest s.index

/-- All matches from a cursor on, at most `fuel` searches; `last` is the end of the match before. -/
def matchesFrom (bound : Nat) (r : Regex) : Nat → Option Nat → Cursor → List Match
  | 0, _, _ => []
  | fuel + 1, last, s =>
    match r.search bound s with
    | none => []
    | some (m, t) =>
      if m.start = m.stop && last == some m.stop then
        match s.next? with
        | none => []
        | some s => matchesFrom bound r fuel last s
      else m :: matchesFrom bound r fuel (some m.stop) t

/-- The leftmost match in a text. -/
def find? (r : Regex) (text : String) : Option Match :=
  (r.search text.length (Cursor.ofChars text.toList)).map (·.1)

def isMatch (r : Regex) (text : String) : Bool := (r.find? text).isSome

/-- All matches in a text from left to right, without overlaps. -/
def findAll (r : Regex) (text : String) : List Match :=
  r.matchesFrom text.length (2 * text.length + 2) none (Cursor.ofChars text.toList)

/-- A text with the given stretches taken out; `i` is the index of the first character. -/
def cutOut (ms : List Match) (cs : List Char) (i : Nat) : List Char :=
  match cs with
  | [] => []
  | c :: cs =>
    if ms.any fun m => m.start ≤ i && i < m.stop then cutOut ms cs (i + 1)
    else c :: cutOut ms cs (i + 1)

def eraseAll (r : Regex) (text : String) : String :=
  String.ofList (cutOut (r.findAll text) text.toList 0)

def eraseFirst (r : Regex) (text : String) : String :=
  String.ofList (cutOut (r.find? text).toList text.toList 0)

end Regex

end CodeSurvey
