import CodeSurvey.Syntax.Tree
import CodeSurvey.Text.Blank
import CodeSurvey.Text.Search

/-!
# Signatures and doc comments

The signature of a declaration is its first line without what opens its body. Its doc comment is the
unbroken run of comments directly before it, without comment marks and markup.
-/

namespace CodeSurvey

namespace Site

/-- The first line of a declaration without an opening brace, arrow or colon at its end. -/
def signature (source : String) (s : Site) : String :=
  let first := ((Text.lines (s.text source)).head?).getD ""
  Text.trim (Text.trimEndWhere (· == ':')
    (Text.withoutEnds "=>" (Text.trimEndWhere (· == '\x7b') first)))

/-- A comment without its marks, its lines joined by spaces. -/
def commentText (comment : String) : String :=
  let bare := Text.withoutEnds "*/" (Text.withoutStarts "/*" (Text.withoutStarts "/**"
    (Text.withoutStarts "//" (Text.withoutStarts "///" comment))))
  let lines := (Text.lines bare).map fun l => Text.trim (Text.trimStartWhere (· == '*') (Text.trim l))
  String.intercalate " " (lines.filter (!·.isEmpty))

/-- The characters outside of markup tags. -/
def outsideTags : Bool → List Char → List Char
  | _, [] => []
  | inTag, c :: cs =>
    if c == '<' then outsideTags true cs
    else if c == '>' && inTag then outsideTags false cs
    else if inTag then outsideTags inTag cs
    else c :: outsideTags inTag cs

def stripTags (s : String) : String :=
  if Text.contains "<" s then Text.squeeze (String.ofList (outsideTags false s.toList))
  else Text.trim s

def docComment? (source : String) (s : Site) : Option String :=
  let comments := (s.allPrevious.takeWhile (·.kind = "comment")).map fun c => commentText (c.text source)
  if comments.isEmpty then none else some (stripTags (Text.joinLines comments.reverse))

end Site

end CodeSurvey
