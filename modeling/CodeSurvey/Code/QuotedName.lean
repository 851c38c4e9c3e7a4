import CodeSurvey.Text.Lines
import CodeSurvey.Text.Search

/-!
# Quoted names in a source

A document has no lines of its own; the line of a key or a type is found by looking for the quoted
name in the source that the document was read from.
-/

namespace CodeSurvey.Code

def quotedName (name : String) : String := "\"" ++ name ++ "\""

/-- The line of the first occurrence of a quoted name from a position on, and the position after
it. A name that does not occur is put on line 1 and leaves the position. -/
def lineOfQuoted (source name : String) (start : Nat) : Nat × Nat :=
  let quoted := quotedName name
  match Text.findChars? quoted.toList (source.toList.drop start) start with
  | some i => (Text.lineOfIndex source i, i + quoted.length)
  | none => (1, start)

end CodeSurvey.Code
