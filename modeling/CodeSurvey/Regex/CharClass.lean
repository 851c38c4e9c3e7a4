import CodeSurvey.Text.Blank
import CodeSurvey.Text.Letters

/-!
# Character classes

A character class is a description of a set of characters that can be tested. `anyCase` closes a
class under letter case before it is complemented or joined with others.
-/

namespace CodeSurvey

inductive CharClass where
  | never
  | always
  | one (c : Char)
  | range (low high : Char)
  | word
  | decimal
  | blank
  | union (a b : CharClass)
  | except (a : CharClass)
  | anyCase (a : CharClass)
  deriving Repr, DecidableEq

namespace CharClass

def has : CharClass → Char → Bool
  | never, _ => false
  | always, _ => true
  | one a, c => a == c
  | range low high, c => low ≤ c && c ≤ high
  | word, c => Text.isWord c
  | decimal, c => Text.isDecimal c
  | blank, c => Text.isBlank c
  | union a b, c => a.has c || b.has c
  | except a, c => !a.has c
  | anyCase a, c => (Text.caseVariants c).any a.has

def anyOf (classes : List CharClass) : CharClass := classes.foldr union never

def chars (s : String) : CharClass := anyOf (s.toList.map one)

def noneOf (classes : List CharClass) : CharClass := except (anyOf classes)

def notChars (s : String) : CharClass := except (chars s)

def letter : CharClass := anyOf [range 'A' 'Z', range 'a' 'z']

/-- ASCII letters and the low line: what a name starts with. -/
def nameStart : CharClass := anyOf [letter, one '_']

def digit : CharClass := range '0' '9'

def notNewline : CharClass := except (one '\n')

end CharClass

end CodeSurvey
