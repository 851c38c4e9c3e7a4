/-!
# Lower-case forms beyond ASCII

Runs of characters whose lower-case form lies at a fixed distance. A run with stride 2 takes
every second character of its range, as in the blocks where upper and lower case alternate.
-/

namespace CodeSurvey.Text

/-- Characters `first`, `first + stride`, …, `last`, each with its lower-case form `shift` further on. -/
structure CaseRun where
  first : Nat
  last : Nat
  stride : Nat
  shift : Int

/-- Whether the run holds the character with this code. -/
def CaseRun.holds (run : CaseRun) (code : Nat) : Bool :=
  run.first ≤ code && code ≤ run.last && (code - run.first) % run.stride == 0

/-- The runs that follow one another from a code on, each written as the number of characters left
out since the one before, its number of characters, its stride and its shift. -/
def caseRunsFrom (next : Nat) : List (Nat × Nat × Nat × Int) → List CaseRun
  | [] => []
  | (skipped, count, stride, shift) :: runs =>
    let last := next + skipped + (count - 1) * stride
    ⟨next + skipped, last, stride, shift⟩ :: caseRunsFrom (last + 1) runs

/-- All runs from U+0080 on, in ascending order. -/
def lowerRuns : List CaseRun := caseRunsFrom 0x80 [
  (64, 23, 1, 32), (1, 7, 1, 32), (33, 24, 2, 1), (3, 3, 2, 1), (2, 8, 2, 1), (2, 23, 2, 1),
  (1, 1, 1, -121), (0, 3, 2, 1), (3, 1, 1, 210), (0, 2, 2, 1), (1, 1, 1, 206), (0, 1, 1, 1),
  (1, 2, 1, 205), (0, 1, 1, 1), (2, 1, 1, 79), (0, 1, 1, 202), (0, 1, 1, 203), (0, 1, 1, 1),
  (1, 1, 1, 205), (0, 1, 1, 207), (1, 1, 1, 211), (0, 1, 1, 209), (0, 1, 1, 1), (3, 1, 1, 211),
  (0, 1, 1, 213), (1, 1, 1, 214), (0, 3, 2, 1), (1, 1, 1, 218), (0, 1, 1, 1), (1, 1, 1, 218),
  (2, 1, 1, 1), (1, 1, 1, 218), (0, 1, 1, 1), (1, 2, 1, 217), (0, 2, 2, 1), (1, 1, 1, 219),
  (0, 1, 1, 1), (3, 1, 1, 1), (7, 1, 1, 2), (0, 1, 1, 1), (1, 1, 1, 2), (0, 1, 1, 1), (1, 1, 1, 2),
  (0, 9, 2, 1), (2, 9, 2, 1), (2, 1, 1, 2), (0, 2, 2, 1), (1, 1, 1, -97), (0, 1, 1, -56),
  (0, 20, 2, 1), (1, 1, 1, -130), (1, 9, 2, 1), (7, 1, 1, 10795), (0, 1, 1, 1), (1, 1, 1, -163),
  (0, 1, 1, 10792), (2, 1, 1, 1), (1, 1, 1, -195), (0, 1, 1, 69), (0, 1, 1, 71), (0, 5, 2, 1),
  (289, 2, 2, 1), (3, 1, 1, 1), (8, 1, 1, 116), (6, 1, 1, 38), (1, 3, 1, 37), (1, 1, 1, 64),
  (1, 2, 1, 63), (1, 17, 1, 32), (1, 9, 1, 32), (35, 1, 1, 8), (8, 12, 2, 1), (5, 1, 1, -60),
  (2, 1, 1, 1), (1, 1, 1, -7), (0, 1, 1, 1), (2, 3, 1, -130), (0, 16, 1, 80), (0, 32, 1, 32),
  (48, 17, 2, 1), (9, 27, 2, 1), (1, 1, 1, 15), (0, 7, 2, 1), (2, 48, 2, 1), (2, 38, 1, 48),
  (2889, 38, 1, 7264), (1, 1, 1, 7264), (5, 1, 1, 7264), (722, 80, 1, 38864), (0, 6, 1, 8),
  (2195, 1, 1, 1), (6, 43, 1, -3008), (2, 3, 1, -3008), (320, 75, 2, 1), (9, 1, 1, -7615),
  (1, 48, 2, 1), (9, 8, 1, -8), (8, 6, 1, -8), (10, 8, 1, -8), (8, 8, 1, -8), (8, 6, 1, -8),
  (11, 4, 2, -8), (8, 8, 1, -8), (24, 8, 1, -8), (8, 8, 1, -8), (8, 8, 1, -8), (8, 2, 1, -8),
  (0, 2, 1, -74), (0, 1, 1, -9), (11, 4, 1, -86), (0, 1, 1, -9), (11, 2, 1, -8), (0, 2, 1, -100),
  (12, 2, 1, -8), (0, 2, 1, -112), (0, 1, 1, -7), (11, 2, 1, -128), (0, 2, 1, -126), (0, 1, 1, -9),
  (297, 1, 1, -7517), (3, 1, 1, -8383), (0, 1, 1, -8262), (6, 1, 1, 28), (45, 16, 1, 16),
  (19, 1, 1, 1), (818, 26, 1, 26), (1840, 48, 1, 48), (48, 1, 1, 1), (1, 1, 1, -10743),
  (0, 1, 1, -3814), (0, 1, 1, -10727), (2, 3, 2, 1), (1, 1, 1, -10780), (0, 1, 1, -10749),
  (0, 1, 1, -10783), (0, 1, 1, -10782), (1, 1, 1, 1), (2, 1, 1, 1), (8, 2, 1, -10815),
  (0, 50, 2, 1), (8, 2, 2, 1), (4, 1, 1, 1), (31053, 23, 2, 1), (19, 14, 2, 1), (135, 7, 2, 1),
  (3, 31, 2, 1), (10, 2, 2, 1), (1, 1, 1, -35332), (0, 5, 2, 1), (4, 1, 1, 1), (1, 1, 1, -42280),
  (2, 2, 2, 1), (3, 10, 2, 1), (1, 1, 1, -42308), (0, 1, 1, -42319), (0, 1, 1, -42315),
  (0, 1, 1, -42305), (0, 1, 1, -42308), (1, 1, 1, -42258), (0, 1, 1, -42282), (0, 1, 1, -42261),
  (0, 1, 1, 928), (0, 8, 2, 1), (1, 1, 1, -48), (0, 1, 1, -42307), (0, 1, 1, -35384), (0, 2, 2, 1),
  (1, 1, 1, -42343), (0, 8, 2, 1), (1, 1, 1, -42561), (24, 1, 1, 1), (22315, 26, 1, 32),
  (1221, 40, 1, 40), (136, 36, 1, 40), (156, 11, 1, 39), (1, 15, 1, 39), (1, 7, 1, 39),
  (1, 2, 1, 39), (1770, 51, 1, 64), (157, 22, 1, 32), (2874, 32, 1, 32), (21888, 32, 1, 32),
  (64, 25, 1, 27), (31303, 34, 1, 34)]

end CodeSurvey.Text
