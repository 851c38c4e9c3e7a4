import CodeSurvey.Text.CharRanges
import CodeSurvey.Text.LowerTable

/-!
# Letters: word characters and letter case

Two notions of case live here. The ASCII one (`lowerAscii`, `sameIgnoringCase`) touches only the
26 basic letters and is used for names and keywords. The full one (`lower`) is used for file
extensions and follows the Unicode tables, with the two special cases of the capital dotted i
and of the capital sigma at the end of a word.
-/

namespace CodeSurvey.Text

/-- Letters, marks, decimal digits and connectors. -/
def isWord (c : Char) : Bool :=
  if c.toNat < 128 then c.isAlphanum || c == '_' else inRanges wordRanges c.toNat

/-- Decimal digits of any script. -/
def isDecimal (c : Char) : Bool :=
  if c.toNat < 128 then c.isDigit else inRanges digitRanges c.toNat

/-- Lower-cases the 26 basic letters and leaves every other character. -/
def lowerAscii (s : String) : String := String.ofList (s.toList.map Char.toLower)

/-- Equality up to the case of the 26 basic letters. -/
def sameIgnoringCase (a b : String) : Bool := lowerAscii a == lowerAscii b

/-- The characters that caseless matching of basic letters identifies with `c`. The Kelvin sign
goes with k and the long s with s; any other character stands for itself, basic letters in
both cases. -/
def caseVariants (c : Char) : List Char :=
  if c == 'k' || c == 'K' || c == '\u212a' then ['k', 'K', '\u212a']
  else if c == 's' || c == 'S' || c == '\u017f' then ['s', 'S', '\u017f']
  else if c.isAlpha then [c.toLower, c.toUpper]
  else [c]

/-- Lower-case form of one character as a character list; only the capital dotted i has two. -/
def lowerChar (c : Char) : List Char :=
  if c.toNat < 128 then [c.toLower]
  else if c == '\u0130' then ['i', '\u0307']
  else
    match lowerRuns.find? (·.holds c.toNat) with
    | some run => [Char.ofNat ((c.toNat : Int) + run.shift).toNat]
    | none => [c]

/-- Letters that have a case, of any script. -/
def isCased (c : Char) : Bool :=
  if c.toNat < 128 then c.isAlpha else inRanges casedRanges c.toNat

/-- Characters that stand inside a word without bearing on the case of its letters. In ASCII they
are the apostrophe, the full stop, the colon, the circumflex and the grave accent. -/
def isCaseIgnorable (c : Char) : Bool :=
  if c.toNat < 128 then ['\'', '.', ':', '^', '\x60'].contains c
  else inRanges caseIgnorableRanges c.toNat

/-- Whether a cased letter comes next, after characters that case passes over. -/
def meetsCased (cs : List Char) : Bool := (cs.dropWhile isCaseIgnorable).head?.any isCased

/-- Lower-cases a text; `before` is what comes before it, the nearest character first. A capital
sigma with a letter on its left and none on its right takes its final form. -/
def lowerChars (before : List Char) : List Char → List Char
  | [] => []
  | c :: cs =>
    let final := c == '\u03a3' && meetsCased before && !meetsCased cs
    (if final then ['\u03c2'] else lowerChar c) ++ lowerChars (c :: before) cs

/-- Lower-case form of a text in every script. -/
def lower (s : String) : String := String.ofList (lowerChars [] s.toList)

end CodeSurvey.Text
