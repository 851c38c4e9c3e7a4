import CodeSurvey.Detect.Bank
import CodeSurvey.Detect.Secret

/-!
# Practices in TypeScript and JavaScript sources
-/

namespace CodeSurvey.Detect.TypeScript

open Regex in
/-- A decorator that registers a class with a container; group 1 is its name. -/
def containerDecorator : Regex :=
  all [
    lit "@", group 1 (oneOf ["Injectable", "Controller", "Module", "Component"]), blanks, lit "("]

def injectable : Rule where
  name := "TS_InjectableDecorator"
  topic := .dependencyInjection
  category := .architecture
  guards := ["@"]
  scan scene := (scene.matchesOf containerDecorator).map fun (line, m) =>
    { spot := .line line
      implementation := "Class registered with the container via @" ++ m.group 1
      metadata := [("decorator", .str (m.group 1))] }
  advice := "Keep providers stateless and inject them through constructors"
  reference scene :=
    if scene.mentions "@nestjs" then "https://docs.nestjs.com/providers"
    else "https://angular.dev/guide/di"
  confidence := 85

open Regex in
/-- A constructor; group 1 is its parameters. -/
def constructorHead : Regex :=
  all [lit "constructor", blanks, lit "(", group 1 (many (set (.notChars ")"))), lit ")"]

open Regex in
/-- A parameter that is also a property; group 1 is its name, group 2 its type. -/
def parameterProperty : Regex :=
  all [
    oneOf ["private", "public", "protected", "readonly"], gap, opt (all [lit "readonly", gap]),
    group 1 (plus word), blanks, lit ":", blanks, group 2 (plus (set (.anyOf [.word, .one '.'])))]

def constructorInjection : Rule where
  name := "TS_ConstructorInjection"
  topic := .dependencyInjection
  category := .architecture
  guards := ["constructor"]
  scan scene := (scene.matchesOf constructorHead).filterMap fun (line, m) =>
    let injected := (parameterProperty.findAll (m.group 1)).map (·.group 2)
    if injected.isEmpty then none
    else some {
      spot := .line line
      implementation := "Constructor injects " ++ String.intercalate ", " injected
      metadata := [("injected", .strings injected)] }
  advice := "Inject collaborators as readonly constructor parameters"
  reference := fun _ => "https://angular.dev/guide/di"
  confidence := 80

open Regex in
/-- A variable that holds a prompt; group 1 is its name. -/
def promptVariable : Regex :=
  all [
    oneOf ["const", "let", "var"], gap,
    group 1 (all [
      many word, oneOfAnyCase ["systemprompt", "system_prompt", "systemmessage", "instructions"],
      many word]),
    blanks, opt (all [lit ":", blanks, plus word, blanks]), lit "="]

def systemPrompt : Rule where
  name := "TS_SystemPromptConstant"
  topic := .promptEngineering
  category := .aiIntegration
  guards := ["rompt", "nstructions", "SystemMessage", "PROMPT", "INSTRUCTIONS"]
  scan scene := (scene.matchesOf promptVariable).map fun (line, m) =>
    { spot := .line line
      implementation := "System prompt defined in '" ++ m.group 1 ++ "'"
      metadata := [("constant", .str (m.group 1))] }
  advice := "Keep prompts in versioned templates and test them like code"
  reference := fun _ => "https://platform.openai.com/docs/guides/prompt-engineering"
  confidence := 85

open Regex in
/-- The definition of a tool for a model; group 1 is its form. -/
def toolForm : Regex :=
  group 1 (any [
    all [edge, lit "tool", blanks, lit "(", blanks, lit "\x7b"],
    all [
      lit "type", blanks, lit ":", blanks, set (.chars "\"'"), lit "function", set (.chars "\"'")],
    all [edge, lit "DynamicStructuredTool", edge],
    all [edge, lit "new", gap, lit "StructuredTool", edge],
    all [edge, lit "server.tool", blanks, lit "("]])

def toolDefinition : Rule where
  name := "TS_LlmToolDefinition"
  topic := .toolIntegration
  category := .aiIntegration
  guards := ["tool", "Tool", "function"]
  scan scene := (scene.matchesOf toolForm).map fun (line, m) =>
    let form := String.join (Text.words (m.group 1))
    { spot := .line line
      implementation := "LLM tool definition (" ++ form ++ ")"
      metadata := [("form", .str form)] }
  advice := "Describe every tool parameter with a schema and validate model-supplied arguments"
  reference := fun _ => "https://platform.openai.com/docs/guides/function-calling"
  confidence := 75

open Regex in
/-- A schema for input; group 1 is how it is stated. -/
def schemaUse : Regex :=
  group 1 (any [
    all [edge, lit "z.object", blanks, lit "("], all [edge, lit "Joi.object", blanks, lit "("],
    all [edge, lit "yup.object", blanks, lit "("],
    all [
      lit "@", oneOf ["IsString", "IsEmail", "IsInt", "IsNotEmpty", "Length", "ValidateNested"],
      blanks, lit "("]])

/-- The library that a schema is stated with. -/
def schemaLibrary (schema : String) : String :=
  if Text.startsWith "z." schema then "zod"
  else if Text.startsWith "Joi" schema then "joi"
  else if Text.startsWith "yup" schema then "yup"
  else "class-validator"

def schemaValidation : Rule where
  name := "TS_SchemaValidation"
  topic := .validation
  category := .security
  guards := ["z.object", "Joi.object", "yup.object", "class-validator"]
  scan scene := (scene.matchesOf schemaUse).map fun (line, m) =>
    let library := schemaLibrary (m.group 1)
    { spot := .line line
      implementation := "Input validated with " ++ library
      metadata := [("library", .str library)] }
  advice := "Validate untrusted input at the boundary and reuse the schema for types"
  reference := fun _ => "https://zod.dev"
  confidence := 85

/-- Texts run as code, first the calls and then the constructions. -/
def evaluation : Rule where
  name := "TS_Eval"
  topic := .security
  category := .security
  guards := ["eval", "Function("]
  scan scene :=
    let calls := (scene.nodes "call_expression").filter fun site =>
      (site.fieldText? scene.source "function").any (· = "eval")
    let constructions := (scene.nodes "new_expression").filter fun site =>
      (site.fieldText? scene.source "constructor").any (· = "Function")
    (calls ++ constructions).map fun site =>
      { spot := .ofSite site
        implementation :=
          "Dynamic code execution: " ++ ((Text.lines (scene.textOf site)).head?).getD "" }
  advice := "Never evaluate strings as code; parse data with JSON.parse instead"
  reference := fun _ =>
    "https://developer.mozilla.org/docs/Web/JavaScript/Reference/Global_Objects/eval#never_use_direct_eval!"
  confidence := 90
  positive := false

def bank : Bank := .ofRules "typescript" [
  injectable, constructorInjection, systemPrompt, toolDefinition, schemaValidation, evaluation,
  hardcodedSecret "TS_HardcodedSecret"]

end CodeSurvey.Detect.TypeScript
