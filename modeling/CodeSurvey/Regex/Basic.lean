import CodeSurvey.Regex.CharClass

/-!
# Regular expressions with priorities

A regular expression describes texts together with an order of preference: the left alternative
before the right one, and more rounds of a greedy repetition before fewer. The matcher takes the
first way that leads to success, trying the ways in that order. It is given by recursion on the
expression, with the rest of the match passed as a continuation; a repetition makes at most as
many rounds as there are characters, since each round has to consume one.

## Implementation notes

Captured parts are kept as texts with the index where they start. A part captured again in a later
round replaces the earlier one.
-/

namespace CodeSurvey

/-- Conditions on a position that consume nothing. -/
inductive Anchor where
  | textStart
  | textEnd
  | lineStart
  | wordEdge
  deriving Repr, DecidableEq

inductive Regex where
  | empty
  | set (c : CharClass)
  | look (a : Anchor)
  | seq (a b : Regex)
  | alt (a b : Regex)
  | star (greedy : Bool) (r : Regex)
  | group (n : Nat) (r : Regex)
  deriving Repr, DecidableEq

/-- A captured part: where it starts and what it reads. -/
structure Capture where
  start : Nat
  chars : List Char
  deriving Repr, DecidableEq

/-- A position in a text with the groups captured so far, latest first. -/
structure Cursor where
  before : Option Char
  rest : List Char
  index : Nat
  groups : List (Nat × Capture)
  deriving Repr, DecidableEq

namespace Cursor

def ofChars (cs : List Char) : Cursor := ⟨none, cs, 0, []⟩

/-- One character further on, none at the end of the text. -/
def next? (s : Cursor) : Option Cursor :=
  match s.rest with
  | [] => none
  | c :: cs => some { s with before := some c, rest := cs, index := s.index + 1 }

/-- Captures what was read since `start` as group `n`. -/
def capture (s start : Cursor) (n : Nat) : Cursor :=
  { s with groups := (n, ⟨start.index, start.rest.take (s.index - start.index)⟩) :: s.groups }

end Cursor

/-- Whether a condition holds at a position. A word edge lies between a word character and
another one or an end of the text. -/
def Anchor.holds (a : Anchor) (s : Cursor) : Bool :=
  match a with
  | textStart => s.before.isNone
  | textEnd => s.rest.isEmpty
  | lineStart => s.before.isNone || s.before == some '\n'
  | wordEdge => s.before.any Text.isWord != s.rest.head?.any Text.isWord

namespace Regex

/-- Rounds of a repetition: at most `rounds`, each consuming at least one character. -/
def runRounds {α : Type} (body : Cursor → (Cursor → Option α) → Option α) (greedy : Bool) :
    Nat → Cursor → (Cursor → Option α) → Option α
  | 0, s, k => k s
  | rounds + 1, s, k =>
    let again := fun (_ : Unit) => body s fun t =>
      if s.index < t.index then runRounds body greedy rounds t k else none
    if greedy then (again ()).orElse fun _ => k s else (k s).orElse again

/-- Matches at a position and hands each way to do so, in order of preference, to the
continuation until it succeeds. `bound` limits the rounds of every repetition. -/
def run {α : Type} (bound : Nat) : Regex → Cursor → (Cursor → Option α) → Option α
  | empty, s, k => k s
  | set c, s, k =>
    match s.rest with
    | [] => none
    | x :: xs =>
      if c.has x then k { s with before := some x, rest := xs, index := s.index + 1 } else none
  | look a, s, k => if a.holds s then k s else none
  | seq a b, s, k => a.run bound s fun t => b.run bound t k
  | alt a b, s, k => (a.run bound s k).orElse fun _ => b.run bound s k
  | star greedy r, s, k => runRounds (fun t k => r.run bound t k) greedy bound s k
  | group n r, s, k => r.run bound s fun t => k (t.capture s n)

/-! ## Expressions built from others -/

/-- One expression after the other. -/
def all (rs : List Regex) : Regex := rs.foldr seq empty

/-- One of several expressions, earlier ones preferred. -/
def any : List Regex → Regex
  | [] => set .never
  | [r] => r
  | r :: rs => alt r (any rs)

/-- A text as it stands. -/
def lit (s : String) : Regex := all (s.toList.map fun c => set (.one c))

/-- A text in any letter case. -/
def litAnyCase (s : String) : Regex := all (s.toList.map fun c => set (.anyCase (.one c)))

/-- One of several texts, earlier ones preferred. -/
def oneOf (ss : List String) : Regex := any (ss.map lit)

/-- One of several texts in any letter case. -/
def oneOfAnyCase (ss : List String) : Regex := any (ss.map litAnyCase)

/-- Any number of rounds, as many as possible. -/
def many (r : Regex) : Regex := star true r

/-- One or more rounds, as many as possible. -/
def plus (r : Regex) : Regex := seq r (star true r)

/-- Any number of rounds, as few as possible. -/
def manyLazy (r : Regex) : Regex := star false r

/-- One or more rounds, as few as possible. -/
def plusLazy (r : Regex) : Regex := seq r (star false r)

/-- At least `n` rounds, as many as possible. -/
def atLeast (n : Nat) (r : Regex) : Regex := (List.replicate n r).foldr seq (many r)

/-- The expression, or nothing if that leads nowhere. -/
def opt (r : Regex) : Regex := alt r empty

def word : Regex := set .word

def blank : Regex := set .blank

def blanks : Regex := many blank

/-- One or more blanks. -/
def gap : Regex := plus blank

/-- Spaces and tabs. -/
def indent : Regex := many (set (.chars " \t"))

def start : Regex := look .textStart

def stop : Regex := look .textEnd

def lineStart : Regex := look .lineStart

/-- A change between word characters and others. -/
def edge : Regex := look .wordEdge

end Regex

end CodeSurvey
