import CodeSurvey.Code.TypeRef
import CodeSurvey.Detect.Bank
import CodeSurvey.Detect.Secret

/-!
# Practices in C# sources
-/

namespace CodeSurvey.Detect.CSharp

open Regex in
/-- A registration with the service container; group 1 is the call, group 2 the services. -/
def registration : Regex :=
  all [
    lit ".", group 1 (oneOf ["AddSingleton", "AddScoped", "AddTransient", "AddHostedService"]),
    blanks, opt (all [lit "<", group 2 (plus (set (.notChars ">()"))), lit ">"]), blanks, lit "("]

def dependencyRegistration : Rule where
  name := "CSharp_DependencyInjectionRegistration"
  topic := .dependencyInjection
  category := .architecture
  guards := ["AddSingleton", "AddScoped", "AddTransient", "AddHostedService"]
  scan scene := (scene.matchesOf registration).map fun (line, m) =>
    let lifetime := m.group 1
    let services := Text.trim (m.group 2)
    { spot := .line line
      implementation :=
        if services.isEmpty then "Service registered via " ++ lifetime
        else services ++ " registered via " ++ lifetime
      metadata := [
        ("lifetime", .str (Text.withoutStarts "Add" lifetime)), ("services", .str services)] }
  advice := "Register abstractions with the narrowest lifetime that is correct for the service"
  reference := fun _ => "https://learn.microsoft.com/dotnet/core/extensions/dependency-injection"
  confidence := 90

def constructorInjection : Rule where
  name := "CSharp_ConstructorInjection"
  topic := .dependencyInjection
  category := .architecture
  scan scene := (scene.nodes "constructor_declaration").filterMap fun site =>
    let parameters := ((site.fieldSite? "parameters").map (·.sitesOf "parameter")).getD []
    let types := parameters.filterMap (·.fieldText? scene.source "type")
    let injected := types.filter fun t => TypeRef.isInterfaceName (TypeRef.baseName t)
    let owner := scene.fieldText site "name"
    if injected.isEmpty then none
    else some {
      spot := .ofSite site
      implementation :=
        owner ++ " receives " ++ String.intercalate ", " injected ++ " through its constructor"
      metadata := [("class", .str owner), ("injected", .strings injected)] }
  advice := "Depend on abstractions injected through the constructor"
  reference := fun _ => "https://learn.microsoft.com/dotnet/core/extensions/dependency-injection"
  confidence := 85

/-- The names of the base types of a declaration, without type arguments. -/
def baseTypes (scene : Scene) (site : Site) : List String :=
  match (site.fieldSite? "bases").or (site.childSite? "base_list") with
  | none => []
  | some list => list.namedSites.map fun n => TypeRef.baseName (scene.textOf n)

def agentBaseClass : Rule where
  name := "CSharp_AgentBaseClass"
  topic := .agentFramework
  category := .aiIntegration
  guards := ["Agent"]
  scan scene := (scene.nodes "class_declaration").filterMap fun site =>
    let base := (baseTypes scene site).find? fun b =>
      Text.endsWith "Agent" b || Text.endsWith "AgentBase" b
    let name := scene.fieldText site "name"
    base.map fun base =>
      { spot := .ofSite site
        implementation := name ++ " derives from agent type " ++ base
        metadata := [("class", .str name), ("base_type", .str base)] }
  advice := "Keep agent classes focused on one responsibility and inject their tools"
  reference := fun _ => "https://learn.microsoft.com/semantic-kernel/frameworks/agent/"
  confidence := 80

open Regex in
/-- A constant that holds a prompt; group 1 is its name. -/
def promptConstant : Regex :=
  all [
    any [lit "const", all [lit "static", gap, lit "readonly"]], gap, lit "string", gap,
    group 1 (all [
      many word, oneOfAnyCase ["systemprompt", "systemmessage", "instructions", "prompttemplate"],
      many word]),
    blanks, lit "="]

def systemPrompt : Rule where
  name := "CSharp_SystemPromptConstant"
  topic := .promptEngineering
  category := .aiIntegration
  guards := ["Prompt", "prompt", "Instructions", "SystemMessage"]
  scan scene := (scene.matchesOf promptConstant).map fun (line, m) =>
    { spot := .line line
      implementation := "System prompt defined in constant '" ++ m.group 1 ++ "'"
      metadata := [("constant", .str (m.group 1))] }
  advice := "Keep prompts in versioned templates so they can change without a rebuild"
  reference := fun _ =>
    "https://learn.microsoft.com/azure/ai-services/openai/concepts/advanced-prompt-engineering"
  confidence := 85

/-- The name of an attribute without its namespace and without `Attribute` at its end. -/
def attributeName (scene : Scene) (site : Site) : String :=
  Text.withoutEnd "Attribute" (Text.afterLast '.' (scene.fieldText site "name"))

/-- The name of the declaration that an attribute is applied to. -/
def attributeTarget (scene : Scene) (site : Site) : String :=
  ((site.parent?.bind (·.parent?)).map (scene.fieldText · "name")).getD ""

def attributesNamed (scene : Scene) (names : List String) : List Site :=
  (scene.nodes "attribute").filter fun site => names.contains (attributeName scene site)

/-- Methods offered to a model as tools. -/
def kernelFunction : Rule where
  name := "CSharp_KernelFunction"
  topic := .toolIntegration
  category := .aiIntegration
  guards := ["KernelFunction", "McpServerTool", "[Function"]
  scan scene :=
    (attributesNamed scene ["KernelFunction", "McpServerTool", "Function"]).map fun site =>
      let target := attributeTarget scene site
      let mark := attributeName scene site
      { spot := .ofSite site
        implementation := target ++ " exposed as a tool via [" ++ mark ++ "]"
        metadata := [("function", .str target), ("attribute", .str mark)] }
  advice := "Give every tool function a [Description] so the model can choose it correctly"
  reference := fun _ => "https://learn.microsoft.com/semantic-kernel/concepts/plugins/"
  confidence := 90

open Regex in
/-- A mention of a cache; group 1 is the mechanism. -/
def cacheUse : Regex :=
  all [
    edge,
    group 1 (oneOf [
      "IMemoryCache", "IDistributedCache", "HybridCache", "AddMemoryCache",
      "AddDistributedMemoryCache", "AddStackExchangeRedisCache", "AddOutputCache"]),
    edge]

/-- The first match of each run of matches on one line; `last` is the line of the match before. -/
def firstOnLine (last : Nat) : List (Nat × Match) → List (Nat × Match)
  | [] => []
  | (line, m) :: rest =>
    if line = last then firstOnLine last rest else (line, m) :: firstOnLine line rest

def caching : Rule where
  name := "CSharp_Caching"
  topic := .caching
  category := .performance
  guards := ["Cache"]
  scan scene := (firstOnLine 0 (scene.matchesOf cacheUse)).map fun (line, m) =>
    { spot := .line line
      implementation := "Caching through " ++ m.group 1
      metadata := [("distributed", .bool (Text.containsAny ["Distributed", "Redis"] (m.group 1)))] }
  advice := "Set explicit expirations and size limits on cached entries"
  reference := fun _ => "https://learn.microsoft.com/aspnet/core/performance/caching/overview"
  confidence := 80

def hasModifier (scene : Scene) (site : Site) (modifier : String) : Bool :=
  (site.sitesOf "modifier").any fun m => scene.textOf m = modifier

/-- Whether a method is asynchronous, returns nothing and is no event handler. -/
def isAsyncVoid (scene : Scene) (site : Site) : Bool :=
  hasModifier scene site "async" &&
    ((site.fieldText? scene.source "returns").or (site.fieldText? scene.source "type")).any
      (· = "void") &&
    !(site.fieldText? scene.source "parameters").any (Text.contains "EventArgs")

/-- Asynchronous methods whose exceptions nobody can catch. -/
def asyncVoid : Rule where
  name := "CSharp_AsyncVoid"
  topic := .errorHandling
  category := .reliability
  guards := ["async void"]
  scan scene := ((scene.nodes "method_declaration").filter (isAsyncVoid scene)).map fun site =>
    let name := scene.fieldText site "name"
    { spot := .ofSite site
      implementation := "async void method '" ++ name ++ "'"
      metadata := [("method", .str name)] }
  advice := "Return Task from async methods; exceptions in async void crash the process"
  reference := fun _ =>
    "https://learn.microsoft.com/archive/msdn-magazine/2013/march/async-await-best-practices-in-asynchronous-programming"
  confidence := 90
  positive := false

open Regex in
/-- A policy for failing calls; group 1 is how it is made. -/
def policyUse : Regex :=
  all [
    edge,
    group 1 (any [
      all [lit "Policy", blanks, lit ".", blanks, lit "Handle", opt (lit "Result")],
      lit "AddResilienceHandler", lit "AddStandardResilienceHandler", lit "AddPolicyHandler",
      lit "ResiliencePipelineBuilder", lit "WaitAndRetryAsync", lit "CircuitBreakerAsync"]),
    edge]

def resilience : Rule where
  name := "CSharp_ResiliencePolicy"
  topic := .resilience
  category := .reliability
  guards := ["Polly", "Resilience", "Policy", "CircuitBreaker", "Retry"]
  scan scene := (scene.matchesOf policyUse).map fun (line, m) =>
    let api := String.join (Text.words (m.group 1))
    { spot := .line line
      implementation := "Resilience policy via " ++ api
      metadata := [("api", .str api)] }
  advice := "Combine retries with timeouts and a circuit breaker for outbound calls"
  reference := fun _ => "https://learn.microsoft.com/dotnet/core/resilience/http-resilience"
  confidence := 85

def validationAttributes : List String :=
  ["Required", "StringLength", "Range", "EmailAddress", "MaxLength", "MinLength",
    "RegularExpression", "Phone", "Url"]

def dataAnnotations : Rule where
  name := "CSharp_DataAnnotationsValidation"
  topic := .validation
  category := .security
  guards := validationAttributes
  scan scene := (attributesNamed scene validationAttributes).map fun site =>
    let target := attributeTarget scene site
    let mark := attributeName scene site
    { spot := .ofSite site
      implementation := target ++ " validated with [" ++ mark ++ "]"
      metadata := [("member", .str target), ("rule", .str mark)] }
  advice := "Validate all external input at the model boundary"
  reference := fun _ => "https://learn.microsoft.com/aspnet/core/mvc/models/validation"
  confidence := 85

/-- Whether a clause has a block with nothing but comments in it. -/
def hasEmptyBlock (site : Site) : Bool :=
  ((site.fieldSite? "body").or (site.childSite? "block")).any fun body =>
    body.namedSites.all (·.kind = "comment")

def emptyCatch : Rule where
  name := "CSharp_EmptyCatch"
  topic := .errorHandling
  category := .reliability
  guards := ["catch"]
  scan scene := ((scene.nodes "catch_clause").filter hasEmptyBlock).map fun site =>
    let caught := ((site.childSite? "catch_declaration").bind
      (·.fieldText? scene.source "type")).getD "Exception"
    { spot := .ofSite site
      implementation := "Empty catch block swallows " ++ caught
      metadata := [("exception", .str caught)] }
  advice := "Log or rethrow caught exceptions; never swallow them silently"
  reference := fun _ =>
    "https://learn.microsoft.com/dotnet/standard/exceptions/best-practices-for-exceptions"
  confidence := 90
  positive := false

def bank : Bank := .ofRules "csharp" [
  dependencyRegistration, constructorInjection, agentBaseClass, systemPrompt, kernelFunction,
  caching, asyncVoid, resilience, dataAnnotations, emptyCatch,
  hardcodedSecret "CSharp_HardcodedSecret"]

end CodeSurvey.Detect.CSharp
