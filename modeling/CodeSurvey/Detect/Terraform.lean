import CodeSurvey.Detect.Bank
import CodeSurvey.Detect.Cloud
import CodeSurvey.Detect.Secret

/-!
# Practices in Terraform configurations
-/

namespace CodeSurvey.Detect.Terraform

open Regex in
def label : Regex := plus (set (.anyOf [.word, .one '-']))

open Regex in
/-- A requirement for a provider; group 1 is its name, group 2 the requirement. -/
def requirement : Regex :=
  all [
    group 1 label, blanks, lit "=", blanks, lit "\x7b",
    group 2 (all [
      many (set (.notChars "\x7b\x7d")), edge, lit "source", blanks, lit "=",
      many (set (.notChars "\x7b\x7d"))]),
    lit "\x7d"]

open Regex in
/-- The head of a block with one label at the start of a line; group 1 is the label. -/
def blockHead (keyword : String) : Regex :=
  all [lineStart, indent, lit keyword, gap, lit "\"", group 1 label, lit "\"", blanks, lit "\x7b"]

open Regex in
/-- The head of a resource; group 1 is its type, group 2 its name. -/
def resourceHead : Regex :=
  all [
    lineStart, indent, lit "resource", gap, lit "\"", group 1 label, lit "\"", gap, lit "\"",
    group 2 label, lit "\"", blanks, lit "\x7b"]

open Regex in
/-- Where a module comes from; group 1 is the source. -/
def sourceSetting : Regex :=
  all [
    lineStart, blanks, lit "source", blanks, lit "=", blanks, lit "\"",
    group 1 (plus (set (.notChars "\""))), lit "\""]

open Regex in
def setting (name : String) : Regex := all [lineStart, blanks, lit name, blanks, lit "="]

open Regex in
/-- The place where state is stored; group 1 is its kind. -/
def backendHead : Regex :=
  all [edge, lit "backend", gap, lit "\"", group 1 label, lit "\"", blanks, lit "\x7b"]

/-- The lines of a block, up to the line on which as many braces are closed as opened. -/
def blockLines (depth : Int) : List String → List String
  | [] => []
  | line :: lines =>
    let chars := line.toList
    let depth := depth + chars.count '\x7b' - chars.count '\x7d'
    if depth ≤ 0 then [line] else line :: blockLines depth lines

/-- The text of the block that is opened on a line. -/
def blockText (scene : Scene) (line : Nat) : String :=
  Text.joinLines (blockLines 0 (scene.lines.drop (line - 1)))

def providerHit (line : Nat) (name : String) : Hit where
  spot := .line line
  implementation := "Provider '" ++ name ++ "' has no version constraint"
  metadata := [("provider", .str name)]

/-- Providers without a version: first the requirements, then the blocks that nothing requires. -/
def unversionedProvider : Rule where
  name := "TF_UnversionedProvider"
  topic := .dependencies
  category := .reliability
  guards := ["required_providers", "provider \""]
  scan scene :=
    let requirements := scene.matchesOf requirement
    let required := requirements.map fun (_, m) => m.group 1
    let loose := requirements.filter fun (_, m) => !Text.contains "version" (m.group 2)
    let blocks := (scene.matchesOf (blockHead "provider")).filter fun (line, m) =>
      !(required.contains (m.group 1) || (setting "version").isMatch (blockText scene line))
    (loose ++ blocks).map fun (line, m) => providerHit line (m.group 1)
  advice := "Pin providers with a version constraint in required_providers"
  reference := fun _ => "https://developer.hashicorp.com/terraform/language/providers/requirements"
  confidence := 85
  positive := false

def unpinnedModule : Rule where
  name := "TF_UnpinnedModuleSource"
  topic := .dependencies
  category := .reliability
  guards := ["module"]
  scan scene := (scene.matchesOf (blockHead "module")).filterMap fun (line, m) =>
    let body := blockText scene line
    match (sourceSetting.find? body).map (·.group 1) with
    | none => none
    | some source =>
      let isLocal := Text.startsWith "./" source || Text.startsWith "../" source
      let pinned := (setting "version").isMatch body || Text.contains "ref=" source
      if isLocal || pinned then none
      else some {
        spot := .line line
        implementation := "Module '" ++ m.group 1 ++ "' uses unpinned source " ++ source
        metadata := [("module", .str (m.group 1)), ("source", .str source)] }
  advice := "Pin registry modules with version and git sources with ?ref=<tag>"
  reference := fun _ => "https://developer.hashicorp.com/terraform/language/modules/sources"
  confidence := 80
  positive := false

def remoteBackend : Rule where
  name := "TF_RemoteBackend"
  topic := .infrastructure
  category := .operations
  guards := ["backend"]
  scan scene :=
    ((scene.matchesOf backendHead).filter fun (_, m) => m.group 1 != "local").map fun (line, m) =>
      { spot := .line line
        implementation := "State stored in remote '" ++ m.group 1 ++ "' backend"
        metadata := [("backend", .str (m.group 1))] }
  advice := "Use a remote backend with locking and encryption for shared state"
  reference := fun _ =>
    "https://developer.hashicorp.com/terraform/language/settings/backends/configuration"
  confidence := 85

def resourceTags : Rule where
  name := "TF_ResourceTags"
  topic := .infrastructure
  category := .maintainability
  guards := ["tags"]
  scan scene :=
    let tagged := (scene.matchesOf resourceHead).filter fun (line, _) =>
      (setting "tags").isMatch (blockText scene line)
    tagged.map fun (line, m) =>
      let address := m.group 1 ++ "." ++ m.group 2
      { spot := .line line
        implementation := address ++ " carries resource tags"
        metadata := [("resource", .str address)] }
  advice := "Apply a consistent tagging scheme for ownership and cost tracking"
  reference := fun _ =>
    "https://learn.microsoft.com/azure/azure-resource-manager/management/tag-resources"
  confidence := 70

def bank : Bank := .ofRules "terraform" [
  unversionedProvider, unpinnedModule, openIngress "TF_OpenIngressCidr", remoteBackend,
  resourceTags, hardcodedSecret "TF_HardcodedSecret"]

end CodeSurvey.Detect.Terraform
