import CodeSurvey.Model.Report

/-!
# Facts: what a front end states about a file

A front end goes through a file and states facts one after the other. Recording them in order makes
the report. A declaration brings the relation by which its owner defines it, and an injection is
noted among the dependencies of the injected owner, so that the two can never disagree.
-/

namespace CodeSurvey

/-- A statement about a file. -/
inductive Fact where
  /-- The owner, a type or the file, declares something. -/
  | declare (owner : String) (declaration : Declaration)
  /-- A relation stated on a line. -/
  | relate (source target : String) (kind : RelationKind) (line : Nat)
      (properties : List (String × Json))
  /-- The constructor of the owner takes a value of the target type. -/
  | inject (owner target : String) (line : Nat) (properties : List (String × Json))
  /-- The block of the element with this position ends on a line; its text is now known. -/
  | close (position : Nat) (content : String) (lastLine : Nat)
  deriving Repr

structure Place where
  path : String
  context : String
  deriving Repr

namespace Report

/-- Changes the last item that satisfies a condition. -/
def modifyLast {α : Type} (p : α → Bool) (f : α → α) (xs : List α) : List α :=
  (modifyFirst p f xs.reverse).reverse

def relate (place : Place) (r : Report) (source target : String) (kind : RelationKind) (line : Nat)
    (properties : List (String × Json)) : Report :=
  r.addRelation (({ source, target, kind, context := place.context : Relation }.atLine line).notes
    properties)

def record (place : Place) (r : Report) : Fact → Report
  | .declare owner d =>
    (r.addElement (d.toElement place.path place.context)).relate place owner d.name .defines
      d.lineNumber []
  | .relate source target kind line properties => r.relate place source target kind line properties
  | .inject owner target line properties =>
    let r := r.relate place owner target .injects line properties
    { r with elements := modifyLast (·.name = owner) (·.update (·.addDependency target)) r.elements }
  | .close position content lastLine =>
    { r with
      elements := r.elements.modify position fun e =>
        e.update fun d => { d with content }.note "end_line" (.nat lastLine) }

def recordAll (place : Place) (r : Report) (facts : List Fact) : Report :=
  facts.foldl (record place) r

end Report

end CodeSurvey
