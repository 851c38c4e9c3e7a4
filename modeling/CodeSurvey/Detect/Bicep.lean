import CodeSurvey.Detect.Bank
import CodeSurvey.Detect.Cloud

/-!
# Practices in Bicep templates
-/

namespace CodeSurvey.Detect.Bicep

open Regex in
/-- The head of a resource; its groups are symbol, type, version and the mark of an existing one. -/
def resourceHead : Regex :=
  all [
    lineStart, indent, lit "resource", gap, group 1 (plus word), gap, lit "'",
    group 2 (plus (set (.notChars "'@"))), lit "@", group 3 (plus (set (.notChars "'"))), lit "'",
    opt (group 4 (all [gap, lit "existing"]))]

def resources : Rule where
  name := "Bicep_Resource"
  topic := .infrastructure
  category := .operations
  guards := ["resource "]
  scan scene := (scene.matchesOf resourceHead).map fun (line, m) =>
    let existing := (m.group? 4).isSome
    { spot := .line line
      implementation :=
        (if existing then "Existing resource" else "Resource") ++ " '" ++ m.group 1 ++
          "' of type " ++ m.group 2 ++ "@" ++ m.group 3
      metadata := [
        ("symbol", .str (m.group 1)), ("resource_type", .str (m.group 2)),
        ("api_version", .str (m.group 3)), ("existing", .bool existing)] }
  advice := "Declare resources with explicit, current API versions"
  reference := fun _ =>
    "https://learn.microsoft.com/azure/azure-resource-manager/bicep/resource-declaration"
  confidence := 90

open Regex in
/-- A text parameter that sounds like a secret; group 1 is its name. -/
def secretParameter : Regex :=
  all [
    lineStart, indent, lit "param", gap,
    group 1 (any [
      all [many word, oneOfAnyCase ["password", "secret", "token", "connectionstring"], many word],
      all [many word, litAnyCase "key"]]),
    gap, lit "string", edge]

/-- Whether the decorators directly above a line mark a parameter as secure. -/
def isSecured (scene : Scene) (line : Nat) : Bool :=
  ((scene.lines.take (line - 1)).reverse.takeWhile fun l => Text.startsWith "@" (Text.trimStart l)).any
    (Text.contains "@secure()")

def insecureParameters : Rule where
  name := "Bicep_SecretParameterNotSecure"
  topic := .security
  category := .security
  guards := ["param "]
  scan scene :=
    ((scene.matchesOf secretParameter).filter fun (line, _) => !isSecured scene line).map
      fun (line, m) =>
        { spot := .line line
          implementation := "Parameter '" ++ m.group 1 ++ "' looks secret but is not @secure()"
          metadata := [("parameter", .str (m.group 1))] }
  advice := "Decorate secret parameters with @secure() so values are not logged"
  reference := fun _ =>
    "https://learn.microsoft.com/azure/azure-resource-manager/bicep/parameters#secure-parameters"
  confidence := 85
  positive := false

def previewVersions : Rule := previewApi "Bicep_PreviewApiVersion" fun scene =>
  ((scene.matchesOf resourceHead).filter fun (_, m) => isPreview (m.group 3)).map fun (line, m) =>
    previewHit line (m.group 2) (m.group 3)

def bank : Bank := .ofRules "bicep" [
  resources, insecureParameters, previewVersions, openIngress "Bicep_OpenIngress"]

end CodeSurvey.Detect.Bicep
