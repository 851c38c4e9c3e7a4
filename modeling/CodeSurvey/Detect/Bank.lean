import CodeSurvey.Detect.Rule
import CodeSurvey.Model.Failure

/-!
# Banks of detectors

A bank runs its detectors one after the other. A detector that gives up contributes a failure and
no findings, and the others still run.
-/

namespace CodeSurvey

/-- A named inspection of scenes, which may give up halfway. -/
structure Detector where
  name : String
  inspect : Scene → Except Crash (List Finding)

def Rule.detector (r : Rule) : Detector := ⟨r.name, fun scene => .ok (r.findings scene)⟩

structure Outcome where
  findings : List Finding := []
  failures : List Failure := []
  deriving Repr

/-- Detectors for one language or domain, in the order in which they run. -/
structure Bank where
  name : String
  detectors : List Detector := []

/-- Whether a detector is left out; letter case does not matter. -/
def isDisabled (disabled : List String) (name : String) : Bool :=
  disabled.any (Text.sameIgnoringCase name)

namespace Bank

def ofRules (name : String) (rules : List Rule) : Bank := ⟨name, rules.map Rule.detector⟩

def add (b : Bank) (d : Detector) : Bank := { b with detectors := b.detectors ++ [d] }

def without (b : Bank) (disabled : List String) : Bank :=
  { b with detectors := b.detectors.filter fun d => !isDisabled disabled d.name }

def names (b : Bank) : List String := b.detectors.map (·.name)

def step (scene : Scene) (o : Outcome) (d : Detector) : Outcome :=
  match d.inspect scene with
  | .ok fs => { o with findings := o.findings ++ fs }
  | .error c => { o with failures := o.failures ++ [.detector d.name c.message] }

def run (b : Bank) (scene : Scene) : Outcome := b.detectors.foldl (step scene) {}

end Bank

end CodeSurvey
