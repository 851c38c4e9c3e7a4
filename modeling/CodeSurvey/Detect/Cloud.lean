import CodeSurvey.Detect.Rule

/-!
# Practices shared by cloud templates
-/

namespace CodeSurvey.Detect

open Regex in
/-- A source of traffic that stands for every address. -/
def anySource : Regex :=
  any [
    all [lit "cidr_blocks", blanks, lit "=", blanks, lit "[", blanks, lit "\"0.0.0.0/0\""],
    all [
      lit "source_address_prefix", blanks, lit "=", blanks, lit "\"",
      oneOf ["*", "0.0.0.0/0", "Internet"], lit "\""],
    all [
      lit "sourceAddressPrefix", blanks, lit ":", blanks, lit "'",
      oneOf ["*", "0.0.0.0/0", "Internet"], lit "'"]]

/-- Network rules open to every address, reported under a name. -/
def openIngress (name : String) : Rule where
  name := name
  topic := .security
  category := .security
  guards := ["0.0.0.0/0", "'*'", "\"*\"", "Internet"]
  scan scene := (scene.matchesOf anySource).map fun (line, _) =>
    { spot := .line line, implementation := "Network rule allows traffic from any address" }
  advice := "Restrict inbound rules to known address ranges or service tags"
  reference := fun _ =>
    "https://learn.microsoft.com/azure/virtual-network/network-security-groups-overview"
  confidence := 85
  positive := false

def isPreview (apiVersion : String) : Bool := Text.contains "preview" (Text.lowerAscii apiVersion)

/-- A resource declared with a preview version of its interface. -/
def previewHit (line : Nat) (resourceType apiVersion : String) : Hit where
  spot := .line line
  implementation := resourceType ++ " uses preview API version " ++ apiVersion
  metadata := [("resource_type", .str resourceType), ("api_version", .str apiVersion)]

/-- Resources declared with preview versions, reported under a name. -/
def previewApi (name : String) (scan : Scene → List Hit) : Rule where
  name := name
  topic := .infrastructure
  category := .reliability
  guards := ["preview"]
  scan := scan
  advice := "Use a GA API version for production resources"
  reference := fun _ =>
    "https://learn.microsoft.com/azure/azure-resource-manager/templates/best-practices#api-version"
  confidence := 70
  positive := false

end CodeSurvey.Detect
