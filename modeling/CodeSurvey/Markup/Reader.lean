import CodeSurvey.Markup.Tag
import CodeSurvey.Text.Blank
import CodeSurvey.Text.Letters
import CodeSurvey.Text.Utf8

/-!
# Reading markup

Markup is read from the start, piece by piece, until it ends or a piece is malformed. Blanks around
a text do not belong to it. Every opening tag has to be closed by a tag of its name, but tags may be
left open at the end. Positions count bytes, without a byte order mark at the start.

What follows an opening angle bracket decides how the piece ends: each class of pieces says after
which characters a closing angle bracket ends it.
-/

namespace CodeSurvey.Markup

/-- The classes of what angle brackets enclose. -/
inductive Piece where
  | comment
  | characterData
  | documentType
  | instruction
  | closing
  | opening
  deriving Repr, DecidableEq

inductive Cause where
  | unclosed (piece : Piece)
  | unknownPiece
  | unnamedDocumentType
  | mismatched (expected found : String)
  | unmatched (found : String)
  deriving Repr, DecidableEq

/-- What is expected at the end of a piece that is not closed. -/
def Piece.complaint : Piece → String
  | comment => "comment not closed: `-->`"
  | characterData => "CDATA not closed: `]]>`"
  | documentType => "DOCTYPE not closed: `>`"
  | instruction => "processing instruction or xml declaration not closed: `?>`"
  | closing | opening => "tag not closed: `>`"

def Cause.message : Cause → String
  | unclosed piece => "syntax error: " ++ piece.complaint ++ " not found before end of input"
  | unknownPiece => "syntax error: unknown or missed symbol in markup"
  | unnamedDocumentType =>
    "ill-formed document: `<!DOCTYPE>` declaration does not contain a name of a document type"
  | mismatched expected found =>
    "ill-formed document: expected `</" ++ expected ++ ">`, but `</" ++ found ++ ">` was found"
  | unmatched found =>
    "ill-formed document: close tag `</" ++ found ++ ">` does not match any open tag"

namespace Piece

/-- The class of the piece that starts with the given characters. -/
def ofChars : List Char → Except Cause Piece
  | [] => .error (.unclosed .opening)
  | '!' :: '-' :: _ => .ok comment
  | '!' :: '[' :: _ => .ok characterData
  | '!' :: 'D' :: _ => .ok documentType
  | '!' :: 'd' :: _ => .ok documentType
  | '!' :: _ => .error .unknownPiece
  | '?' :: _ => .ok instruction
  | '/' :: _ => .ok closing
  | _ => .ok opening

/-- The quote that is open after some characters. -/
def openQuote (cs : List Char) : Option Char :=
  cs.foldl (fun quote c =>
    match quote with
    | none => if c = '"' || c = '\'' then some c else none
    | some q => if c = q then none else some q) none

/-- Whether a closing bracket ends the piece after the characters read so far, last one first. -/
def endsAfter (read : List Char) : Piece → Bool
  | comment => 4 < read.length && ['-', '-'].isPrefixOf read
  | characterData => [']', ']'].isPrefixOf read
  | documentType => read.count '<' = read.count '>'
  | instruction => ['?'].isPrefixOf read
  | closing | opening => (openQuote read.reverse).isNone

/-- Cuts a piece off: its characters and what follows its closing bracket. -/
def cut? (p : Piece) (read : List Char) : List Char → Option (List Char × List Char)
  | [] => none
  | c :: cs =>
    if c = '>' && p.endsAfter read then some (read.reverse, cs) else p.cut? (c :: read) cs

theorem length_lt_of_cut? (p : Piece) (read cs content rest : List Char)
    (h : p.cut? read cs = some (content, rest)) : rest.length < cs.length := by
  induction cs generalizing read with
  | nil => simp [cut?] at h
  | cons c cs ih =>
    unfold cut? at h
    split at h
    · simp only [Option.some.injEq, Prod.mk.injEq] at h
      simp [h.2]
    · have := ih _ h
      simp only [List.length_cons]
      omega

end Piece

/-- What is met in markup. Pieces that say nothing about elements are passed over. -/
inductive Event where
  | opened (tag : Tag)
  | empty (tag : Tag)
  | closed
  | text (raw : String)
  | skipped
  deriving Repr, DecidableEq

/-- An event and the position reached before it. -/
structure Located where
  position : Nat
  event : Event
  deriving Repr, DecidableEq

/-- A position at which markup is malformed, and why. -/
structure Fault where
  position : Nat
  cause : Cause
  deriving Repr, DecidableEq

/-- What was read: the events up to the end or to a fault. -/
structure Reading where
  events : List Located := []
  fault : Option Fault := none
  deriving Repr, DecidableEq

def Reading.after (r : Reading) (e : Located) : Reading := { r with events := e :: r.events }

/-- The event that a piece makes and the names of the tags open after it, nearest first. The fault
of a nameless document type lies at its end, any other at its start. -/
def Piece.event (p : Piece) (opened : List String) (content : List Char) :
    Except Cause (Event × List String) :=
  match p with
  | .comment =>
    if "!--".toList.isPrefixOf content then .ok (.skipped, opened) else .error (.unclosed .comment)
  | .characterData =>
    if "![CDATA[".toList.isPrefixOf content then .ok (.skipped, opened)
    else .error (.unclosed .characterData)
  | .documentType =>
    if Text.lowerAscii (String.ofList (content.take 8)) != "!doctype" then
      .error (.unclosed .documentType)
    else if (content.drop 8).all isSpace then .error .unnamedDocumentType
    else .ok (.skipped, opened)
  | .instruction =>
    if content.length < 2 then .error (.unclosed .instruction) else .ok (.skipped, opened)
  | .closing =>
    let name := content.drop 1
    let found := String.ofList (if name.all isSpace then name else Text.dropEndWhile isSpace name)
    match opened with
    | [] => .error (.unmatched found)
    | expected :: opened =>
      if found = expected then .ok (.closed, opened) else .error (.mismatched expected found)
  | .opening =>
    if content.getLast? = some '/' then .ok (.empty (.ofContent content.dropLast), opened)
    else
      let tag := Tag.ofContent content
      .ok (.opened tag, tag.name :: opened)

/-- Reads on from a position at which no piece is open. -/
def readFrom (opened : List String) (position : Nat) (cs : List Char) : Reading :=
  match _start : cs.dropWhile isSpace with
  | [] => {}
  | '<' :: rest =>
    let start := position + Text.byteLength (cs.takeWhile isSpace)
    match Piece.ofChars rest with
    | .error cause => { fault := some ⟨start, cause⟩ }
    | .ok piece =>
      match _cut : piece.cut? [] rest with
      | none => { fault := some ⟨start, .unclosed piece⟩ }
      | some (content, after) =>
        let stop := start + 1 + Text.byteLength content
        match piece.event opened content with
        | .error cause =>
          { fault := some ⟨if cause = .unnamedDocumentType then stop else start, cause⟩ }
        | .ok (event, opened) => (readFrom opened (stop + 1) after).after ⟨position, event⟩
  | first :: rest =>
    let text := first :: rest.takeWhile (· != '<')
    let raw := String.ofList (Text.dropEndWhile isSpace text)
    let next := position + Text.byteLength (cs.takeWhile isSpace) + Text.byteLength text
    (readFrom opened next (rest.dropWhile (· != '<'))).after ⟨position, .text raw⟩
termination_by cs.length
decreasing_by
  · have hs := length_dropWhile_le isSpace cs
    rw [_start] at hs
    simp only [List.length_cons] at hs
    have hl := Piece.length_lt_of_cut? _ _ _ _ _ _cut
    omega
  · have hs := length_dropWhile_le isSpace cs
    rw [_start] at hs
    simp only [List.length_cons] at hs
    have hd := length_dropWhile_le (· != '<') rest
    omega

def read (text : String) : Reading := readFrom [] 0 (Text.withoutMark text.toList)

end CodeSurvey.Markup
