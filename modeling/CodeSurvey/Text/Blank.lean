/-!
# Blank characters, trimming and words

A blank is a character with the white-space property of the Unicode character database. Trimming
takes characters off the ends of a text; the words of a text are its runs of non-blank characters.
-/

namespace CodeSurvey.Text

/-- White space of the Unicode character database. -/
def isBlank (c : Char) : Bool :=
  let n := c.toNat
  (9 ≤ n && n ≤ 13) || n == 0x20 || n == 0x85 || n == 0xA0 || n == 0x1680 ||
    (0x2000 ≤ n && n ≤ 0x200A) || n == 0x2028 || n == 0x2029 || n == 0x202F ||
    n == 0x205F || n == 0x3000

/-- Drops the longest run at the end whose characters all satisfy `p`. -/
def dropEndWhile (p : Char → Bool) (cs : List Char) : List Char :=
  (cs.reverse.dropWhile p).reverse

/-- Takes the characters that satisfy `p` off the start. -/
def trimStartWhere (p : Char → Bool) (s : String) : String :=
  String.ofList (s.toList.dropWhile p)

def trimEndWhere (p : Char → Bool) (s : String) : String :=
  String.ofList (dropEndWhile p s.toList)

def trimWhere (p : Char → Bool) (s : String) : String :=
  trimEndWhere p (trimStartWhere p s)

def trimStart (s : String) : String := trimStartWhere isBlank s

def trimEnd (s : String) : String := trimEndWhere isBlank s

def trim (s : String) : String := trimWhere isBlank s

/-- The runs of non-blank characters; `pending` holds the run being read, last character first. -/
def wordsOf (pending : List Char) : List Char → List (List Char)
  | [] => if pending.isEmpty then [] else [pending.reverse]
  | c :: cs =>
    if isBlank c then
      if pending.isEmpty then wordsOf [] cs else pending.reverse :: wordsOf [] cs
    else wordsOf (c :: pending) cs

/-- The maximal runs of non-blank characters, in order. -/
def words (s : String) : List String := (wordsOf [] s.toList).map String.ofList

def squeeze (s : String) : String := String.intercalate " " (words s)

end CodeSurvey.Text
