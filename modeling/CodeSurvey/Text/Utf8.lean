import CodeSurvey.Text.Lines

/-!
# Byte offsets and UTF-8

Syntax trees and markup positions count bytes of the UTF-8 form of a text, while texts are read
as characters. This module cuts texts at byte offsets and decodes bytes. Bytes that are no UTF-8
decode to one replacement character for each longest piece that could still have begun a
character.
-/

namespace CodeSurvey.Text

def byteLength (cs : List Char) : Nat := cs.foldr (fun c n => c.utf8Size + n) 0

/-- What is left after the first `n` bytes; a character cut in two is dropped as a whole. -/
def dropBytes : Nat → List Char → List Char
  | 0, cs => cs
  | _ + 1, [] => []
  | n + 1, c :: cs => dropBytes (n + 1 - c.utf8Size) cs

/-- The characters that lie within the first `n` bytes. -/
def takeBytes : Nat → List Char → List Char
  | _, [] => []
  | n, c :: cs => if c.utf8Size ≤ n then c :: takeBytes (n - c.utf8Size) cs else []

/-- Whether a character of the text starts or the text ends at this byte. -/
def isBoundary : Nat → List Char → Bool
  | 0, _ => true
  | _ + 1, [] => false
  | n + 1, c :: cs => c.utf8Size ≤ n + 1 && isBoundary (n + 1 - c.utf8Size) cs

def byteSlice (start stop : Nat) (s : String) : String :=
  String.ofList (takeBytes (stop - start) (dropBytes start s.toList))

def encode (s : String) : List UInt8 := s.toList.flatMap String.utf8EncodeChar

/-- The line at a byte offset, by the bytes before it; offsets beyond the end stand for the end. -/
def lineOfOffset (s : String) (offset : Nat) : Nat := ((encode s).take offset).count 0x0A + 1

/-- The line at a byte offset, by the characters before it; none when the offset lies inside a
character. -/
def lineAtBoundary? (s : String) (offset : Nat) : Option Nat :=
  if isBoundary (min offset (byteLength s.toList)) s.toList then
    some (lineAfter (takeBytes offset s.toList))
  else none

/-- How a multi-byte character begins: number of bytes that follow, bounds of the first of them
and the bits that the leading byte gives. -/
structure Lead where
  following : Nat
  low : UInt8
  high : UInt8
  bits : Nat

def lead? (b : UInt8) : Option Lead :=
  let n := b.toNat
  if 0xC2 ≤ n && n ≤ 0xDF then some ⟨1, 0x80, 0xBF, n - 0xC0⟩
  else if n == 0xE0 then some ⟨2, 0xA0, 0xBF, 0⟩
  else if n == 0xED then some ⟨2, 0x80, 0x9F, 0xD⟩
  else if 0xE1 ≤ n && n ≤ 0xEF then some ⟨2, 0x80, 0xBF, n - 0xE0⟩
  else if n == 0xF0 then some ⟨3, 0x90, 0xBF, 0⟩
  else if 0xF1 ≤ n && n ≤ 0xF3 then some ⟨3, 0x80, 0xBF, n - 0xF0⟩
  else if n == 0xF4 then some ⟨3, 0x80, 0x8F, 4⟩
  else none

/-- The bytes that go on with a character: at most `n` of them, the first between the bounds. -/
def continuation (low high : UInt8) : Nat → List UInt8 → List UInt8
  | 0, _ => []
  | _ + 1, [] => []
  | n + 1, b :: bs => if low ≤ b && b ≤ high then b :: continuation 0x80 0xBF n bs else []

/-- Reads bytes as characters; each longest malformed piece is read as none. -/
def decode : List UInt8 → List (Option Char)
  | [] => []
  | b :: bs =>
    if b < 0x80 then some (Char.ofNat b.toNat) :: decode bs
    else
      match lead? b with
      | none => none :: decode bs
      | some lead =>
        let tail := continuation lead.low lead.high lead.following bs
        let code := tail.foldl (fun n b => n * 64 + (b.toNat - 0x80)) lead.bits
        (if tail.length = lead.following then some (Char.ofNat code) else none) ::
          decode (bs.drop tail.length)
termination_by bytes => bytes.length

/-- Decodes bytes with the replacement character in place of malformed pieces. -/
def decodeLossy (bytes : List UInt8) : String :=
  String.ofList ((decode bytes).map (·.getD '�'))

/-- Decodes bytes that are UTF-8 throughout. -/
def decodeStrict? (bytes : List UInt8) : Option String :=
  ((decode bytes).mapM id).map String.ofList

/-- A text without a byte order mark at its start. -/
def withoutMark : List Char → List Char
  | [] => []
  | c :: cs => if c = '\ufeff' then cs else c :: cs

end CodeSurvey.Text
