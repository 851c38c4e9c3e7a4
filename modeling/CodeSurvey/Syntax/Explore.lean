import CodeSurvey.Syntax.Tree

/-!
# Explorations of a syntax tree

Visiting a node gives results at once and names the nodes further down that are still to be visited,
each with what the visit has to know there. The results of a visit stand before those of the visits
that it asks for.
-/

namespace CodeSurvey

/-- What visiting a node gives: results, and sites further down to be visited next. -/
structure Visit (Mode Result : Type) (s : Site) where
  results : List Result := []
  next : List (Mode × Site.Below s) := []

namespace Visit

/-- A visit that gives results and goes no further. -/
def done {Mode Result : Type} {s : Site} (results : List Result) : Visit Mode Result s :=
  { results }

/-- A visit that gives results and goes on with all children. -/
def onward {Mode Result : Type} {s : Site} (mode : Mode) (results : List Result) :
    Visit Mode Result s :=
  { results, next := s.children.map (mode, ·) }

end Visit

/-- Visits a site and then, in order, all that the visits ask for. -/
def explore {Mode Result : Type} (visit : Mode → (s : Site) → Visit Mode Result s) (mode : Mode)
    (s : Site) : List Result :=
  let v := visit mode s
  v.results ++ v.next.flatMap fun n => explore visit n.1 n.2.site
termination_by s.size
decreasing_by exact n.2.smaller

end CodeSurvey
