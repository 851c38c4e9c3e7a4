import CodeSurvey.Detect.Scene
import CodeSurvey.Model.Finding

/-!
# Rules

A rule describes one practice: how to find it, what to advise and how sure the finding is. Before a
scene is searched, the rule's guards are looked for in the whole source; a source with none of them
is not searched.
-/

namespace CodeSurvey

/-- One place where a practice shows, and how it is done there. -/
structure Hit where
  spot : Spot
  implementation : String := ""
  metadata : List (String × Json) := []
  deriving Repr

/-- The description of a practice. A rule without guards searches every scene. The confidence is
given in hundredths. -/
structure Rule where
  name : String
  topic : Topic
  category : Category
  guards : List String := []
  scan : Scene → List Hit
  advice : String := ""
  reference : Scene → String := fun _ => ""
  confidence : Int
  positive : Bool := true

namespace Rule

def admits (r : Rule) (scene : Scene) : Bool := r.guards.isEmpty || scene.mentionsAny r.guards

def finding (r : Rule) (scene : Scene) (hit : Hit) : Finding where
  name := r.name
  topic := r.topic
  category := r.category
  implementation := hit.implementation
  filePath := scene.filePath
  lineNumber := hit.spot.firstLine
  endLineNumber := hit.spot.lastLine?
  content := scene.excerpt hit.spot
  bestPractice := r.advice
  documentationUrl := r.reference scene
  context := scene.context
  confidence := confidenceOf r.confidence
  isPositive := r.positive
  metadata := Fields.ofList hit.metadata

/-- What the rule finds when its guards are not asked. -/
def unguarded (r : Rule) (scene : Scene) : List Finding := (r.scan scene).map (r.finding scene)

def findings (r : Rule) (scene : Scene) : List Finding :=
  if r.admits scene then r.unguarded scene else []

end Rule

end CodeSurvey
