/-!
# Lines of a text

A line ends at a line feed; a carriage return directly before the line feed belongs to the line
end. What follows the last line feed is a line only when it is not empty. Line numbers count
from 1.
-/

namespace CodeSurvey.Text

/-- Removes one carriage return at the end. -/
def dropReturn (line : List Char) : List Char :=
  if line.getLast? = some '\r' then line.dropLast else line

/-- The lines of a text; `pending` holds the line being read, last character first. -/
def linesOf (pending : List Char) : List Char → List (List Char)
  | [] => if pending.isEmpty then [] else [pending.reverse]
  | c :: cs =>
    if c = '\n' then dropReturn pending.reverse :: linesOf [] cs
    else linesOf (c :: pending) cs

/-- The lines of a text without their line ends. -/
def lines (s : String) : List String := (linesOf [] s.toList).map String.ofList

def joinLines (ls : List String) : String := String.intercalate "\n" ls

/-- The line on which the text after `before` starts. -/
def lineAfter (before : List Char) : Nat := before.count '\n' + 1

def lineOfIndex (s : String) (index : Nat) : Nat := lineAfter (s.toList.take index)

end CodeSurvey.Text
