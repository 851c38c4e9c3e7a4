import CodeSurvey.Syntax.Tree

/-!
# Walks over syntax trees

A walk visits nodes from left to right, each before what lies below it, and goes below a node only
if the visit says so. The nodes still to be visited wait on a stack, so that the depth of a tree
costs no more than its size.
-/

namespace CodeSurvey

namespace Site

/-- Visits the sites on the stack and, where the visit says so, what lies below them. -/
def walk {σ : Type} (visit : σ → Site → σ × Bool) : List Site → σ → σ
  | [], state => state
  | s :: stack, state =>
    let (state, descend) := visit state s
    if descend then walk visit (s.children.map (·.site) ++ stack) state
    else walk visit stack state
termination_by stack => sizes stack
decreasing_by
  · rw [sizes_append, sizes]
    exact Nat.add_lt_add_right (sizes_children s) _
  · have h : 0 < s.size := Nat.lt_of_le_of_lt (Nat.zero_le _) (sizes_children s)
    rw [sizes]
    omega

/-- All sites from this one down, each before what lies below it. -/
def preorder (s : Site) : List Site :=
  (walk (fun (seen : List Site) n => (n :: seen, true)) [s] []).reverse

def ofKind (s : Site) (kind : String) : List Site := s.preorder.filter (·.kind = kind)

end Site

namespace Tree

/-- The line of the first node that is an error or missing, none if there is none. Subtrees without
errors are passed over. -/
def firstErrorLine? (t : Tree) : Option Nat :=
  if !t.info.hasError then none
  else
    let found := Site.walk (fun (found : Option Nat) s =>
      if found.isSome then (found, false)
      else if s.info.isError || s.info.isMissing then (some s.line, false)
      else (none, s.info.hasError)) [.root t] none
    some (found.getD 1)

/-! ## Trees from listings -/

/-- One row of a listing: a node and the number of its children. -/
structure Row where
  info : NodeInfo
  childCount : Nat

/-- Reads `count` trees off a listing in which each node stands before its children. -/
def takeRows : Nat → Nat → List Row → Option (List Tree × List Row)
  | 0, _, _ => none
  | _ + 1, 0, rows => some ([], rows)
  | _ + 1, _ + 1, [] => none
  | fuel + 1, count + 1, row :: rows => do
    let (children, rows) ← takeRows fuel row.childCount rows
    let (siblings, rows) ← takeRows fuel count rows
    some (node row.info children :: siblings, rows)

def ofRows? (rows : List Row) : Option Tree :=
  match takeRows (2 * rows.length + 2) 1 rows with
  | some ([t], []) => some t
  | _ => none

end Tree

end CodeSurvey
