import CodeSurvey.Text.Lines

/-!
# Snippets

A snippet shows the lines of something together with a margin of lines on both sides.
-/

namespace CodeSurvey.Code

/-- The lines from index `start` to index `stop`, widened by `margin` on both sides and kept within
the lines. Indices beyond the lines stand for the last one. -/
def snippet (lines : List String) (start stop margin : Nat) : String :=
  match lines with
  | [] => ""
  | _ =>
    let last := lines.length - 1
    let first := min (start - margin) last
    let final := min (max start stop + margin) last
    Text.joinLines ((lines.drop first).take (final + 1 - first))

end CodeSurvey.Code
