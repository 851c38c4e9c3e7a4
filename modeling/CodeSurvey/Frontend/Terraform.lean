import CodeSurvey.Detect.Terraform
import CodeSurvey.Frontend.Basic
import CodeSurvey.Frontend.Facts
import CodeSurvey.Syntax.Comment

/-!
# Terraform configurations

The blocks at the top level become elements named by their addresses, such as `type.name` for a
resource or `var.name` for a variable. The addresses that a block mentions are what it uses; whether
they are defined anywhere is left open. A file of variable values holds attributes at the top level.
-/

namespace CodeSurvey.Terraform

section Shapes

open Regex

def addressPart : Regex := all [set .nameStart, many (set (.anyOf [.word, .one '-']))]

/-- The address of a value, a module, a data source or a resource. -/
def reference : Regex :=
  all [
    edge,
    any [
      all [oneOf ["var", "local", "module"], lit ".", addressPart],
      all [lit "data.", addressPart, lit ".", addressPart],
      all [
        set (.range 'a' 'z'), many (set (.anyOf [.range 'a' 'z', .digit])), lit "_",
        plus (set (.anyOf [.range 'a' 'z', .digit, .one '_'])), lit ".", addressPart]]]

end Shapes

def unquote (s : String) : String := Text.trimWhere (· == '"') s

/-! ## Reading blocks -/

/-- What stands before the body of a block: its type and its labels. -/
structure Header where
  type : String
  labels : List String
  deriving Repr, DecidableEq

/-- The header of a block; a block without a type has none. -/
def header? (u : SourceUnit) (block : Site) : Option Header :=
  let parts := (block.children.map (·.site)).takeWhile (·.kind != "block_start")
  (parts.find? (·.kind = "identifier")).map fun type =>
    { type := type.text u.text
      labels := (parts.filter (·.kind = "string_lit")).map fun s => unquote (s.text u.text) }

/-- The sites of a kind directly inside the body of a block. -/
def inBody (block : Site) (kind : String) : List Site :=
  (block.childSite? "body").toList.flatMap (·.sitesOf kind)

/-- An attribute: its name, its value as written, and where it stands. -/
structure Attribute where
  name : String
  value : String
  site : Site
  deriving Repr

/-- Reads an attribute; one without a name or a value is none. -/
def attribute? (u : SourceUnit) (s : Site) : Option Attribute := do
  let name ← s.childSite? "identifier"
  let value ← s.childSite? "expression"
  some ⟨name.text u.text, value.text u.text, s⟩

def attributes (u : SourceUnit) (block : Site) : List Attribute :=
  (inBody block "attribute").filterMap (attribute? u)

/-- The value of the first attribute with a name, without quotes. -/
def attributeValue? (u : SourceUnit) (block : Site) (name : String) : Option String :=
  ((attributes u block).find? (·.name = name)).map fun a => unquote (Text.trim a.value)

/-- The text that an object gives to a key, as far as it is a plain quoted text. -/
def objectText? (key object : String) : Option String := do
  let start ← Text.find? key object
  let rest ← Text.afterStart? "=" (Text.trimStart (Text.drop (start + key.length) object))
  let rest ← Text.afterStart? "\"" (Text.trimStart rest)
  some (Text.beforeFirst (· == '"') rest)

def Header.address (h : Header) : String :=
  match h.type, h.labels with
  | "resource", type :: name :: _ => type ++ "." ++ name
  | "data", type :: name :: _ => "data." ++ type ++ "." ++ name
  | "module", name :: _ => "module." ++ name
  | "variable", name :: _ => "var." ++ name
  | "output", name :: _ => "output." ++ name
  | "provider", name :: _ => "provider." ++ name
  | type, labels => String.intercalate "." (type :: labels)

/-- The kind of element that a block makes: variables and outputs that are named are values. -/
def Header.kind (h : Header) : ElementKind :=
  if (h.type = "variable" || h.type = "output") && !h.labels.isEmpty then .property else .type

/-! ## Facts -/

def declaration (u : SourceUnit) (kind : ElementKind) (name blockType : String) (s : Site) :
    Declaration where
  kind := kind
  name := name
  content := s.text u.text
  lineNumber := s.line
  signature := s.signature u.text
  tags := [blockType]
  metadata := Fields.ofList [("block_type", .str blockType), ("end_line", .nat s.lastLine)]

/-- The addresses that a text mentions, other than its own, each once and in order. -/
def mentioned (own text : String) : List String :=
  let found := ((reference.findAll text).map (·.text)).filter (· != own)
  found.eraseDups.mergeSort fun a b => !(b < a)

/-- What is used by the addresses that a text mentions. -/
def useFacts (own text : String) (line : Nat) : List Fact :=
  (mentioned own text).map (Fact.edge own · .uses line)

def callFacts (u : SourceUnit) (own : String) (block : Site) : List Fact :=
  (block.ofKind "function_call").filterMap fun call =>
    (call.childSite? "identifier").map fun name => .edge own (name.text u.text) .calls call.line

def localFacts (u : SourceUnit) (block : Site) : List Fact :=
  (attributes u block).flatMap fun a =>
    let name := "local." ++ a.name
    .declare u.path (declaration u .property name "local" a.site) :: useFacts name a.value a.site.line

def innerBlocks (u : SourceUnit) (block : Site) : List (Header × Site) :=
  (inBody block "block").filterMap fun s => (header? u s).map (·, s)

/-- The providers that a block of settings requires: local name, value and place. -/
def requiredProviders (u : SourceUnit) (block : Site) : List Attribute :=
  ((innerBlocks u block).filter fun b => b.1.type = "required_providers").flatMap fun b =>
    attributes u b.2

def providerSource (a : Attribute) : String := (objectText? "source" a.value).getD a.name

def providerFact (u : SourceUnit) (a : Attribute) : Fact :=
  .relate u.path (providerSource a) .imports a.site.line
    (("provider", .str a.name) ::
      ((objectText? "version" a.value).map fun v => ("version", .str v)).toList)

/-- The backend that a block of settings names; the last one counts. -/
def backend? (u : SourceUnit) (block : Site) : Option String :=
  (((innerBlocks u block).filter fun b => b.1.type = "backend" || b.1.type = "cloud").getLast?).map
    fun b => b.1.labels.headD b.1.type

/-- What the attributes of a block add to its declaration. -/
def addAttributes (u : SourceUnit) (h : Header) (block : Site) (d : Declaration) : Declaration :=
  let value? := attributeValue? u block
  match h.type with
  | "resource" | "data" =>
    match h.labels with
    | type :: _ => (d.addTag type).note "resource_type" (.str type)
    | [] => d
  | "module" =>
    (d.addDependencies (value? "source").toList).noteText? "version" (value? "version")
  | "variable" | "output" => { d with summary := (value? "description").getD d.summary }
  | "terraform" =>
    ((d.noteText? "required_version" (value? "required_version")).noteText? "backend"
      (backend? u block)).addDependencies ((requiredProviders u block).map providerSource)
  | _ => d

def attributeFacts (u : SourceUnit) (h : Header) (block : Site) : List Fact :=
  match h.type with
  | "module" =>
    (attributeValue? u block "source").toList.map (Fact.edge h.address · .imports block.line)
  | "variable" =>
    (attributeValue? u block "type").toList.map (Fact.edge h.address · .hasType block.line)
  | "terraform" => (requiredProviders u block).map (providerFact u)
  | _ => []

/-- Types of blocks whose bodies are searched for what they use and call. -/
def searchedTypes : List String := ["resource", "data", "module", "output", "provider"]

def bodyFacts (u : SourceUnit) (h : Header) (block : Site) : List Fact :=
  if searchedTypes.contains h.type then
    let text := block.text u.text
    let body := Text.drop ((Text.find? "\x7b" text).getD 0) text
    useFacts h.address body block.line ++ callFacts u h.address block
  else []

def blockFacts (u : SourceUnit) (block : Site) : List Fact :=
  match header? u block with
  | none => []
  | some h =>
    if h.type = "locals" then localFacts u block
    else
      .declare u.path
          (addAttributes u h block (declaration u h.kind h.address h.type block)) ::
        attributeFacts u h block ++ bodyFacts u h block

/-- The value of a variable in a file of them. -/
def valueFacts (u : SourceUnit) (s : Site) : List Fact :=
  (attribute? u s).toList.map fun a =>
    .declare u.path (declaration u .property ("var." ++ a.name) "tfvars" s)

def holdsValues (path : String) : Bool := Text.endsWith ".tfvars" (Text.lowerAscii path)

def facts (path text : String) (tree : Tree) : List Fact :=
  let u : SourceUnit := ⟨path, text⟩
  (((Site.root tree).childSite? "body").toList.flatMap Site.namedSites).flatMap fun s =>
    if s.kind = "block" then blockFacts u s
    else if s.kind = "attribute" && holdsValues path then valueFacts u s
    else []

def survey (settings : Settings) (fs : FileSystem) (source : Source)
    (bank : Bank := Detect.Terraform.bank) : Report :=
  let place := source.place settings fs
  let report := Report.opening place source.content "Terraform"
  if source.cancelled then report.fail (.cancelled source.path)
  else
    match source.tree with
    | none => report.fail (.unavailable "Failed to parse content")
    | some tree =>
      let report := (tree.firstErrorLine?.map report.flagSyntaxError).getD report
      let report := report.recordAll place (facts source.path source.content tree)
      report.detect settings.detectors bank
        { filePath := source.path, context := place.context, source := source.content, tree := tree }

def frontend (settings : Settings) : Frontend where
  language := "Terraform"
  extensions := ["tf", "tfvars"]
  survey fs source := .ok (survey settings fs source)

end CodeSurvey.Terraform
