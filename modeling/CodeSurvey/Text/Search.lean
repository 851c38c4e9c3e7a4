/-!
# Searching, cutting and replacing

Positions are character indices. Every search looks for the leftmost occurrence, and repeated
searches go on after the end of the occurrence found.
-/

namespace CodeSurvey.Text

/-- What follows `p` when `s` starts with it. -/
def afterChars? : List Char → List Char → Option (List Char)
  | [], s => some s
  | _ :: _, [] => none
  | a :: p, b :: s => if a = b then afterChars? p s else none

/-- Index of the first occurrence of `p`, where `s` starts at index `i`. -/
def findChars? (p : List Char) : List Char → Nat → Option Nat
  | [], i => if p.isEmpty then some i else none
  | c :: s, i => if p.isPrefixOf (c :: s) then some i else findChars? p s (i + 1)

def startsWith (p s : String) : Bool := p.toList.isPrefixOf s.toList

def endsWith (p s : String) : Bool := p.toList.isSuffixOf s.toList

def find? (p s : String) : Option Nat := findChars? p.toList s.toList 0

def contains (p s : String) : Bool := (find? p s).isSome

def containsAny (ps : List String) (s : String) : Bool := ps.any (contains · s)

def drop (n : Nat) (s : String) : String := String.ofList (s.toList.drop n)

def take (n : Nat) (s : String) : String := String.ofList (s.toList.take n)

def afterStart? (p s : String) : Option String := (afterChars? p.toList s.toList).map String.ofList

/-- What precedes `p` when `s` ends with it. -/
def beforeEnd? (p s : String) : Option String :=
  (afterChars? p.toList.reverse s.toList.reverse).map fun cs => String.ofList cs.reverse

/-- Removes `p` from the start if it stands there. -/
def withoutStart (p s : String) : String := (afterStart? p s).getD s

/-- Removes `p` from the end if it stands there. -/
def withoutEnd (p s : String) : String := (beforeEnd? p s).getD s

/-- Removes leading copies of `p`, at most `fuel` of them. -/
def dropCopies (p : List Char) : Nat → List Char → List Char
  | 0, s => s
  | fuel + 1, s =>
    match afterChars? p s with
    | some rest => dropCopies p fuel rest
    | none => s

/-- Removes every leading copy of a non-empty `p`. -/
def withoutStarts (p s : String) : String :=
  String.ofList (dropCopies p.toList s.length s.toList)

/-- Removes every copy of a non-empty `p` at the end. -/
def withoutEnds (p s : String) : String :=
  String.ofList (dropCopies p.toList.reverse s.length s.toList.reverse).reverse

/-- The pieces between the characters that satisfy `p`; `pending` is the piece being read. -/
def piecesOf (p : Char → Bool) (pending : List Char) : List Char → List (List Char)
  | [] => [pending.reverse]
  | c :: cs => if p c then pending.reverse :: piecesOf p [] cs else piecesOf p (c :: pending) cs

/-- The pieces between the characters that satisfy `p`, empty ones included. -/
def splitWhere (p : Char → Bool) (s : String) : List String :=
  (piecesOf p [] s.toList).map String.ofList

/-- The pieces between the occurrences of `c`, empty ones included. -/
def split (c : Char) (s : String) : List String := splitWhere (· == c) s

/-- The part before the first character that satisfies `p`. -/
def beforeFirst (p : Char → Bool) (s : String) : String :=
  String.ofList (s.toList.takeWhile fun c => !p c)

/-- The part after the last `c`, or all of it. -/
def afterLast (c : Char) (s : String) : String :=
  String.ofList (s.toList.reverse.takeWhile (· != c)).reverse

/-- Cuts at the last character that satisfies `p`, which is left out. -/
def cutAtLast? (p : Char → Bool) (s : String) : Option (String × String) :=
  let back := s.toList.reverse
  match back.dropWhile fun c => !p c with
  | [] => none
  | _ :: before =>
    some (String.ofList before.reverse, String.ofList (back.takeWhile fun c => !p c).reverse)

/-- Replaces the leftmost occurrences of `old`; `skip` characters of one are still to be dropped. -/
def replaceChars (old new : List Char) : Nat → List Char → List Char
  | _, [] => []
  | skip + 1, _ :: cs => replaceChars old new skip cs
  | 0, c :: cs =>
    if old.isPrefixOf (c :: cs) then new ++ replaceChars old new (old.length - 1) cs
    else c :: replaceChars old new 0 cs

/-- Replaces every occurrence of `old`. An empty `old` occurs before each character and at the end. -/
def replace (old new s : String) : String :=
  if old.isEmpty then
    String.ofList (s.toList.flatMap (fun c => new.toList ++ [c]) ++ new.toList)
  else String.ofList (replaceChars old.toList new.toList 0 s.toList)

/-- The pieces between the occurrences of `sep`; `skip` characters of one are still to be dropped. -/
def cutChars (sep : List Char) (pending : List Char) : Nat → List Char → List (List Char)
  | _, [] => [pending.reverse]
  | skip + 1, _ :: cs => cutChars sep pending skip cs
  | 0, c :: cs =>
    if sep.isPrefixOf (c :: cs) then pending.reverse :: cutChars sep [] (sep.length - 1) cs
    else cutChars sep (c :: pending) 0 cs

/-- The pieces between the occurrences of a non-empty `sep`. -/
def splitOn (sep s : String) : List String :=
  (cutChars sep.toList [] 0 s.toList).map String.ofList

end CodeSurvey.Text
