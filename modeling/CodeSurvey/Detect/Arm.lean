import CodeSurvey.Code.QuotedName
import CodeSurvey.Detect.Bank
import CodeSurvey.Detect.Cloud
import CodeSurvey.Detect.Secret

/-!
# Practices in resource manager templates

The template is read as a document. Lines come from looking for the quoted name in the source:
resources of a list are looked for one after the other, resources with a symbol by their symbol.
-/

namespace CodeSurvey.Detect.Arm

/-- A resource of a template; the symbol is its key where the resources are an object. -/
structure Resource where
  type : String
  apiVersion : String
  name : Option String
  symbol : Option String
  deriving Repr

/-- The resource that an entry declares, none without a type or a version. -/
def resource? (symbol : Option String) (entry : Json) : Option Resource := do
  let type ← entry.textField? "type"
  let apiVersion ← entry.textField? "apiVersion"
  some ⟨type, apiVersion, (entry.textField? "name").or symbol, symbol⟩

mutual

/-- The resources of a list or of an object, each before the resources within it. -/
def resourcesOf : Json → List Resource
  | .arr entries => fromEntries entries
  | .obj fields => fromSymbols fields
  | _ => []

def fromEntries : List Json → List Resource
  | [] => []
  | entry :: rest => (resource? none entry).toList ++ within entry ++ fromEntries rest

def fromSymbols : List (String × Json) → List Resource
  | [] => []
  | (symbol, entry) :: rest =>
    (resource? (some symbol) entry).toList ++ within entry ++ fromSymbols rest

def within : Json → List Resource
  | .obj fields => underKey fields
  | _ => []

def underKey : List (String × Json) → List Resource
  | [] => []
  | (key, value) :: rest => if key = "resources" then resourcesOf value else underKey rest

end

def resources (scene : Scene) : List Resource :=
  ((scene.document.bind (·.field? "resources")).map resourcesOf).getD []

/-- The resources with their lines, found from a position on. -/
def locate (source : String) (start : Nat) : List Resource → List (Nat × Resource)
  | [] => []
  | r :: rest =>
    match r.symbol with
    | some symbol => ((Code.lineOfQuoted source symbol 0).1, r) :: locate source start rest
    | none =>
      let (line, next) := Code.lineOfQuoted source r.type start
      (line, r) :: locate source next rest

def declared : Rule where
  name := "ARM_Resource"
  topic := .infrastructure
  category := .operations
  scan scene := (locate scene.source 0 (resources scene)).map fun (line, r) =>
    { spot := .line line
      implementation := "Resource " ++ r.type ++ "@" ++ r.apiVersion
      metadata := [
        ("resource_type", .str r.type), ("api_version", .str r.apiVersion),
        ("resource_name", .str (r.name.getD ""))] }
  advice := "Declare resources with explicit, current API versions"
  reference := fun _ =>
    "https://learn.microsoft.com/azure/azure-resource-manager/templates/resource-declaration"
  confidence := 90

def isSecure (parameter : Json) : Bool :=
  (parameter.textField? "type").any fun t =>
    Text.sameIgnoringCase t "securestring" || Text.sameIgnoringCase t "secureobject"

/-- Whether a parameter has a default that is neither null nor empty. -/
def hasDefault (parameter : Json) : Bool :=
  match parameter.field? "defaultValue" with
  | none | some .null => false
  | some (.str s) => !s.isEmpty
  | some _ => true

def secureDefaults : Rule where
  name := "ARM_SecureStringDefault"
  topic := .security
  category := .security
  guards := ["securestring", "secureString", "secureObject", "secureobject"]
  scan scene :=
    let parameters := ((scene.document.bind (·.field? "parameters")).bind Json.fields?).getD []
    (parameters.filter fun (_, p) => isSecure p && hasDefault p).map fun (name, _) =>
      { spot := .line (Code.lineOfQuoted scene.source name 0).1
        implementation := "Secure parameter '" ++ name ++ "' has a default value"
        metadata := [("parameter", .str name)] }
  advice := "Never give secure parameters a default; pass them from Key Vault references"
  reference := fun _ =>
    "https://learn.microsoft.com/azure/azure-resource-manager/templates/best-practices#security-recommendations-for-parameters"
  confidence := 90
  positive := false

def previewVersions : Rule := previewApi "ARM_PreviewApiVersion" fun scene =>
  ((locate scene.source 0 (resources scene)).filter fun (_, r) => isPreview r.apiVersion).map
    fun (line, r) => previewHit line r.type r.apiVersion

def bank : Bank := .ofRules "arm" [
  declared, secureDefaults, previewVersions, hardcodedSecret "ARM_HardcodedSecret"]

end CodeSurvey.Detect.Arm
