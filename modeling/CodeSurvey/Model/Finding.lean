import CodeSurvey.Json.Decode
import CodeSurvey.Number.Shortest

/-!
# Findings: practices detected in a source file

A finding names a practice, good or bad, with the place where it shows, an advice and the confidence
of the detector. The confidence is a number in single precision.
-/

namespace CodeSurvey

/-- What a practice is about. -/
inductive Topic where
  | dependencyInjection
  | security
  | caching
  | toolIntegration
  | promptEngineering
  | agentFramework
  | validation
  | errorHandling
  | resilience
  | stateManagement
  | logging
  | infrastructure
  | dependencies
  deriving Repr, DecidableEq

namespace Topic

def all : List Topic :=
  [dependencyInjection, security, caching, toolIntegration, promptEngineering, agentFramework,
    validation, errorHandling, resilience, stateManagement, logging, infrastructure, dependencies]

def key : Topic → String
  | dependencyInjection => "dependency_injection"
  | security => "security"
  | caching => "caching"
  | toolIntegration => "tool_integration"
  | promptEngineering => "prompt_engineering"
  | agentFramework => "agent_framework"
  | validation => "validation"
  | errorHandling => "error_handling"
  | resilience => "resilience"
  | stateManagement => "state_management"
  | logging => "logging"
  | infrastructure => "infrastructure"
  | dependencies => "dependencies"

def title : Topic → String
  | dependencyInjection => "DependencyInjection"
  | security => "Security"
  | caching => "Caching"
  | toolIntegration => "ToolIntegration"
  | promptEngineering => "PromptEngineering"
  | agentFramework => "AgentFramework"
  | validation => "Validation"
  | errorHandling => "ErrorHandling"
  | resilience => "Resilience"
  | stateManagement => "StateManagement"
  | logging => "Logging"
  | infrastructure => "Infrastructure"
  | dependencies => "Dependencies"

def ofKey? (key : String) : Option Topic := all.find? (·.key == key)

end Topic

/-- The quality of the software that a practice affects. -/
inductive Category where
  | architecture
  | security
  | performance
  | reliability
  | maintainability
  | aiIntegration
  | operations
  deriving Repr, DecidableEq

namespace Category

def all : List Category :=
  [architecture, security, performance, reliability, maintainability, aiIntegration, operations]

def key : Category → String
  | architecture => "architecture"
  | security => "security"
  | performance => "performance"
  | reliability => "reliability"
  | maintainability => "maintainability"
  | aiIntegration => "ai_integration"
  | operations => "operations"

def ofKey? (key : String) : Option Category := all.find? (·.key == key)

end Category

/-- The confidence of so many hundredths, kept between nothing and certainty. -/
def confidenceOf (hundredths : Int) : Binary :=
  .ofFraction .single false (min 100 (max 0 hundredths)).toNat 100

structure Finding where
  name : String
  topic : Topic
  category : Category
  implementation : String := ""
  filePath : String
  lineNumber : Nat := 1
  endLineNumber : Option Nat := none
  content : String := ""
  bestPractice : String := ""
  documentationUrl : String := ""
  context : String
  confidence : Binary := .zero
  isPositive : Bool := true
  metadata : Fields := []
  deriving Repr

namespace Finding

def note (f : Finding) (key : String) (value : Json) : Finding :=
  { f with metadata := f.metadata.set key value }

/-- The finding as data, with the number given for its confidence. -/
def toJsonWith (confidence : Json) (f : Finding) : Json :=
  Json.ofFields ([
    ("name", .str f.name), ("pattern_type", .str f.topic.key), ("category", .str f.category.key),
    ("implementation", .str f.implementation), ("file_path", .str f.filePath),
    ("line_number", .nat f.lineNumber), ("content", .str f.content),
    ("best_practice", .str f.bestPractice), ("documentation_url", .str f.documentationUrl),
    ("context", .str f.context), ("confidence", confidence), ("is_positive", .bool f.isPositive),
    ("metadata", .obj f.metadata)] ++
    (f.endLineNumber.map fun n => ("end_line_number", .nat n)).toList)

/-- A confidence as the shortest decimal that reads back in single precision. -/
def narrow : Binary → Json
  | .finite negative 0 _ => .num (.float (.finite negative 0 0))
  | .finite negative m e =>
    let d := Decimal.ofBinary .single m e
    .num (.float (
      if 0 ≤ d.exponent then .ofFraction .double negative (d.digits * Nat.pow 10 d.exponent.toNat) 1
      else .ofFraction .double negative d.digits (Nat.pow 10 (-d.exponent).toNat)))
  | .infinite _ => .null

def toJson (f : Finding) : Json := f.toJsonWith (narrow f.confidence)

/-- A confidence widened to double precision. -/
def widened (x : Binary) : Json :=
  match x.convert .double with
  | .infinite _ => .null
  | y => .num (.float y)

/-- The finding as it is kept in metadata, where numbers have double precision. -/
def toMetadata (f : Finding) : Json := f.toJsonWith (widened f.confidence)

def fieldNames : List String :=
  ["name", "pattern_type", "category", "implementation", "file_path", "line_number",
    "end_line_number", "content", "best_practice", "documentation_url", "context", "confidence",
    "is_positive", "metadata"]

def ofJson? (value : Json) : Option Finding := do
  let fields ← value.record? .refused fieldNames
  let name ← fields.need "name" Json.text?
  let topic ← fields.need "pattern_type" fun v => v.caseName?.bind Topic.ofKey?
  let category ← fields.need "category" fun v => v.caseName?.bind Category.ofKey?
  let implementation ← fields.need "implementation" Json.text?
  let filePath ← fields.need "file_path" Json.text?
  let lineNumber ← fields.need "line_number" Json.nat?
  let endLineNumber ← fields.orElse "end_line_number"
    (fun v => match v with | .null => some none | v => v.nat?.map some) none
  let content ← fields.need "content" Json.text?
  let bestPractice ← fields.need "best_practice" Json.text?
  let documentationUrl ← fields.need "documentation_url" Json.text?
  let context ← fields.need "context" Json.text?
  let confidence ← fields.need "confidence" Json.single?
  let isPositive ← fields.need "is_positive" Json.bool?
  let metadata ← fields.orElse "metadata" Json.fields? []
  some { name, topic, category, implementation, filePath, lineNumber, endLineNumber, content,
         bestPractice, documentationUrl, context, confidence, isPositive, metadata }

end Finding

end CodeSurvey
