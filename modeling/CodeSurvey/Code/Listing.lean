import CodeSurvey.Code.CodeLine
import CodeSurvey.Text.Lines

/-!
# Listings: the lines of a source in several readings

Formats without a syntax tree are read line by line: as written, as code without strings and
comments, and trimmed for looking up doc comments. Lines are counted from 0.
-/

namespace CodeSurvey.Code

/-- The lines of a source as written, as trimmed code and trimmed. -/
structure Listing where
  raw : List String
  code : List String
  trimmed : List String
  deriving Repr

namespace Listing

/-- The listing of a text whose comments start with a mark. -/
def ofText (comment text : String) : Listing :=
  let raw := Text.lines text
  { raw
    code := raw.map fun l => Text.trim (codeLine comment l)
    trimmed := raw.map Text.trim }

def last (l : Listing) : Nat := l.raw.length - 1

def codeAt (l : Listing) (i : Nat) : String := l.code.getD i ""

def rawAt (l : Listing) (i : Nat) : String := l.raw.getD i ""

/-- The text from one line to another as written. -/
def span (l : Listing) (start stop : Nat) : String :=
  Text.joinLines ((l.raw.drop start).take (stop + 1 - start))

end Listing

end CodeSurvey.Code
