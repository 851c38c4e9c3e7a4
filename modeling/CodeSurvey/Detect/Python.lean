import CodeSurvey.Detect.Bank
import CodeSurvey.Detect.Secret

/-!
# Practices in Python sources
-/

namespace CodeSurvey.Detect.Python

open Regex in
/-- A variable that holds a prompt; group 1 is its name. -/
def promptVariable : Regex :=
  all [
    lineStart, indent,
    group 1 (all [
      many (set .nameStart),
      oneOfAnyCase ["system_prompt", "system_message", "instructions", "prompt_template"],
      many (set (.anyOf [.letter, .digit, .one '_']))]),
    blanks, opt (all [lit ":", blanks, plus (set (.anyOf [.word, .chars "[]"])), blanks]), lit "="]

def systemPrompt : Rule where
  name := "Py_SystemPromptConstant"
  topic := .promptEngineering
  category := .aiIntegration
  guards := ["PROMPT", "prompt", "INSTRUCTIONS", "instructions", "MESSAGE", "message"]
  scan scene := (scene.matchesOf promptVariable).map fun (line, m) =>
    { spot := .line line
      implementation := "System prompt defined in '" ++ m.group 1 ++ "'"
      metadata := [("constant", .str (m.group 1))] }
  advice := "Keep prompts in versioned templates and test them like code"
  reference := fun _ => "https://platform.openai.com/docs/guides/prompt-engineering"
  confidence := 85

def pydanticModel : Rule where
  name := "Py_PydanticModel"
  topic := .validation
  category := .security
  guards := ["BaseModel"]
  scan scene :=
    let models := (scene.nodes "class_definition").filter fun site =>
      (site.fieldText? scene.source "superclasses").any (Text.contains "BaseModel")
    models.map fun site =>
      let name := scene.fieldText site "name"
      { spot := .ofSite site
        implementation := name ++ " is a pydantic model"
        metadata := [("class", .str name)] }
  advice := "Validate external payloads through typed models with field constraints"
  reference := fun _ => "https://docs.pydantic.dev/latest/concepts/models/"
  confidence := 90

def decoratorName (scene : Scene) (site : Site) : String :=
  Text.trim (Text.beforeFirst (· == '(')
    (Text.trim (Text.trimStartWhere (· == '@') (scene.textOf site))))

def decoratedName (scene : Scene) (site : Site) : String :=
  ((site.parent?.bind (·.fieldSite? "definition")).map (scene.fieldText · "name")).getD ""

def toolDecorator : Rule where
  name := "Py_ToolDecorator"
  topic := .toolIntegration
  category := .aiIntegration
  guards := ["@tool", "@function_tool", "@kernel_function", ".tool"]
  scan scene :=
    let tools := (scene.nodes "decorator").filter fun site =>
      ["tool", "function_tool", "kernel_function", "mcp.tool", "server.tool"].contains
        (decoratorName scene site)
    tools.map fun site =>
      let name := decoratorName scene site
      let function := decoratedName scene site
      { spot := .ofSite site
        implementation := function ++ " exposed as a tool via @" ++ name
        metadata := [("function", .str function), ("decorator", .str name)] }
  advice := "Document every tool with a docstring; the model reads it to choose the tool"
  reference := fun _ => "https://python.langchain.com/docs/concepts/tools/"
  confidence := 90

open Regex in
/-- A decorator that remembers results; group 1 is its name. -/
def cacheDecorator : Regex :=
  all [
    lineStart, indent, lit "@", opt (lit "functools."),
    group 1 (oneOf ["lru_cache", "cache", "cached_property"]), edge]

def lruCache : Rule where
  name := "Py_LruCache"
  topic := .caching
  category := .performance
  guards := ["cache"]
  scan scene := (scene.matchesOf cacheDecorator).map fun (line, m) =>
    { spot := .line line
      implementation := "Memoized with @" ++ m.group 1
      metadata := [("decorator", .str (m.group 1))] }
  advice := "Bound memoization caches with maxsize and avoid caching methods on instances"
  reference := fun _ => "https://docs.python.org/3/library/functools.html#functools.lru_cache"
  confidence := 80

def bareExcept : Rule where
  name := "Py_BareExcept"
  topic := .errorHandling
  category := .reliability
  guards := ["except"]
  scan scene :=
    let bare := (scene.nodes "except_clause").filter fun site =>
      (Text.afterStart? "except" (scene.textOf site)).any fun rest =>
        Text.startsWith ":" (Text.trimStart rest)
    bare.map fun site =>
      { spot := .line site.line
        implementation := "Bare except clause catches every exception including SystemExit" }
  advice := "Catch specific exception types and log or re-raise"
  reference := fun _ => "https://peps.python.org/pep-0008/#programming-recommendations"
  confidence := 90
  positive := false

open Regex in
/-- A dependency of a request handler; group 1 is its provider. -/
def dependsUse : Regex :=
  all [
    edge, lit "Depends", blanks, lit "(", blanks, group 1 (many (set (.anyOf [.word, .one '.'])))]

def fastApiDepends : Rule where
  name := "Py_FastApiDepends"
  topic := .dependencyInjection
  category := .architecture
  guards := ["Depends"]
  scan scene := (scene.matchesOf dependsUse).map fun (line, m) =>
    let provider := m.group 1
    { spot := .line line
      implementation :=
        if provider.isEmpty then "FastAPI dependency injection" else "FastAPI injects " ++ provider
      metadata := [("provider", .str provider)] }
  advice := "Provide shared resources through dependencies instead of module globals"
  reference := fun _ => "https://fastapi.tiangolo.com/tutorial/dependencies/"
  confidence := 85

def bank : Bank := .ofRules "python" [
  systemPrompt, pydanticModel, toolDecorator, lruCache, bareExcept, fastApiDepends,
  hardcodedSecret "Py_HardcodedSecret"]

end CodeSurvey.Detect.Python
