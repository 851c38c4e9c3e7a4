import CodeSurvey.Code.Snippet
import CodeSurvey.Json.Basic
import CodeSurvey.Regex.Search
import CodeSurvey.Syntax.Walk
import CodeSurvey.Text.Search

/-!
# Scenes: what a detector looks at

A scene is a source file with all that is known of it before detection: its path and context, its
text, its syntax tree where the language has one, and its document where the text is JSON.
-/

namespace CodeSurvey

structure Scene where
  filePath : String
  context : String
  source : String
  tree : Option Tree := none
  document : Option Json := none
  margin : Nat := 3
  deriving Repr

/-- Where a practice shows: on a line counted from 1, or from one row to another counted from 0. -/
inductive Spot where
  | line (number : Nat)
  | rows (first last : Nat)
  deriving Repr, DecidableEq

namespace Spot

def ofSite (s : Site) : Spot := rows s.info.startRow s.info.endRow

def firstLine : Spot → Nat
  | line number => number
  | rows first _ => first + 1

/-- The line where the spot ends, for a spot with a known end. -/
def lastLine? : Spot → Option Nat
  | line _ => none
  | rows _ last => some (last + 1)

end Spot

namespace Scene

def lines (s : Scene) : List String := Text.lines s.source

def mentions (s : Scene) (word : String) : Bool := Text.contains word s.source

def mentionsAny (s : Scene) (words : List String) : Bool := words.any s.mentions

/-- The matches of an expression in the source, each with the line on which it starts. -/
def matchesOf (s : Scene) (r : Regex) : List (Nat × Match) :=
  (r.findAll s.source).map fun m => (m.line s.source, m)

/-- The nodes of a kind, none without a syntax tree. -/
def nodes (s : Scene) (kind : String) : List Site :=
  match s.tree with
  | none => []
  | some tree => (Site.root tree).ofKind kind

def textOf (s : Scene) (site : Site) : String := site.text s.source

/-- The text under a field of a node, empty if there is none. -/
def fieldText (s : Scene) (site : Site) (name : String) : String :=
  (site.fieldText? s.source name).getD ""

def excerpt (s : Scene) : Spot → String
  | .line number => Code.snippet s.lines (number - 1) (number - 1) s.margin
  | .rows first last => Code.snippet s.lines first last s.margin

end Scene

end CodeSurvey
