import CodeSurvey.Regex.Search
import CodeSurvey.Text.Search

/-!
# Doc comments written as lines

The doc comment of a declaration is the run of doc lines directly above it. Attribute lines between
the two are passed over.
-/

namespace CodeSurvey.Code

open Regex in
def markupTag : Regex :=
  all [lit "<", opt (lit "/"), set .letter, many (set (.except (.one '>'))), lit ">"]

/-- Whether a line can stand between a declaration and its doc lines. -/
def isAttributeLine (marker line : String) : Bool :=
  (Text.startsWith "<" line && marker == "'''") || (Text.startsWith "@" line && marker == "///")

/-- The texts of the doc lines, from the nearest line upwards. -/
def docLines (marker : String) : List String → List String
  | [] => []
  | line :: lines =>
    let line := Text.trim line
    if isAttributeLine marker line then docLines marker lines
    else
      match Text.afterStart? marker line with
      | some text => Text.trim text :: docLines marker lines
      | none => []

/-- The doc comment that ends directly after the given lines. -/
def docAfter (marker : String) (above : List String) : Option String :=
  let text := String.intercalate " " (docLines marker above.reverse).reverse
  let text := Text.squeeze (markupTag.eraseAll text)
  if text.isEmpty then none else some text

/-- The doc comment above the line with an index; there is no answer for an index beyond the lines. -/
def docAbove? (marker : String) (lines : List String) (index : Nat) : Option (Option String) :=
  if lines.length < index then none else some (docAfter marker (lines.take index))

end CodeSurvey.Code
