import CodeSurvey.Detect.CSharp
import CodeSurvey.Frontend.Basic
import CodeSurvey.Frontend.Facts
import CodeSurvey.Syntax.Comment
import CodeSurvey.Syntax.Explore

/-!
# C# sources

The declarations of a file are found by exploring its syntax tree. Types own their members; calls,
constructions, throws and catches are related to the member in whose body they stand.
-/

namespace CodeSurvey.CSharp

/-- Where a visit takes place: the path of the file or the type that owns what is declared, and the
member whose body it is in. -/
structure Scope where
  owner : String
  member : Option String := none
  deriving Repr, DecidableEq

def typeKinds : List String :=
  ["class_declaration", "struct_declaration", "record_declaration", "record_struct_declaration",
    "interface_declaration", "enum_declaration"]

def importTarget (directive : String) : String :=
  let text := Text.trimEndWhere (· == ';') (Text.trim directive)
  let text := Text.trimStart (Text.withoutStart "global" text)
  let text := Text.trimStart (Text.withoutStart "using" text)
  let text := Text.trim (Text.withoutStart "static " text)
  Text.trim (Text.afterLast '=' text)

def importFacts (u : SourceUnit) (s : Site) : List Fact :=
  let target := importTarget (s.text u.text)
  if target.isEmpty then [] else [.edge u.path target .imports s.line]

def attributeFacts (u : SourceUnit) (s : Site) (name : String) : List Fact :=
  ((s.sitesOf "attribute_list").flatMap (·.sitesOf "attribute")).filterMap fun a =>
    (a.fieldText? u.text "name").map fun text =>
      .edge name (Text.withoutEnd "Attribute" text) .hasAttribute a.line

/-- The declaration that a node makes, with its modifiers as tags. -/
def declaration (u : SourceUnit) (kind : ElementKind) (name : String) (s : Site) : Declaration :=
  let d : Declaration := {
    kind, name
    content := s.text u.text
    lineNumber := s.line
    summary := (s.docComment? u.text).getD ""
    signature := s.signature u.text
    metadata := [("end_line", .nat s.lastLine)] }
  d.addTags ((s.sitesOf "modifier").map (·.text u.text))

/-- The names of the namespaces on the way up, nearest first. A namespace for the whole file may
stand beside the types; it counts unless it was met on the way. -/
def namespaceNames (u : SourceUnit) (fileScoped : Bool) : List Site → List String
  | [] => []
  | a :: rest =>
    if a.kind = "namespace_declaration" then
      (a.fieldText? u.text "name").toList ++ namespaceNames u fileScoped rest
    else if a.kind = "file_scoped_namespace_declaration" then
      (a.fieldText? u.text "name").toList ++ namespaceNames u true rest
    else if a.kind = "compilation_unit" && !fileScoped then
      ((a.childSite? "file_scoped_namespace_declaration").bind
        (·.fieldText? u.text "name")).toList ++ namespaceNames u fileScoped rest
    else namespaceNames u fileScoped rest

/-- The dotted name of the namespaces around a node, outermost first. -/
def namespaceOf? (u : SourceUnit) (s : Site) : Option String :=
  match namespaceNames u false s.ancestors with
  | [] => none
  | names => some (String.intercalate "." names.reverse)

/-- The relations to one base type. A class implements what is named like an interface and inherits
from anything else; an interface always inherits. -/
def baseFacts (u : SourceUnit) (name : String) (isInterface : Bool) (base : Site) : List Fact :=
  let text :=
    if base.kind = "primary_constructor_base_type" then
      (base.fieldText? u.text "type").getD (base.text u.text)
    else base.text u.text
  let target := TypeRef.baseName text
  let kind :=
    if !isInterface && TypeRef.isInterfaceName target then RelationKind.implements else .inherits
  .edge name target kind base.line ::
    (TypeRef.ofText .csharp text).arguments.map (Fact.edge name · .usesGeneric base.line)

def bases (s : Site) : List Site :=
  (((s.fieldSite? "bases").or (s.childSite? "base_list")).map (·.namedSites)).getD []

/-- A type: its declaration, attributes and bases, and then its body. -/
def visitType (u : SourceUnit) (scope : Scope) (s : Site) : Visit Scope Fact s :=
  match s.fieldText? u.text "name" with
  | none => .done []
  | some plain =>
    let name := qualify u.path scope.owner plain
    let isInterface := s.kind = "interface_declaration"
    let d := (declaration u (if isInterface then .interface else .type) name s).addTag
      (Text.withoutEnds "_declaration" s.kind)
    let d := d.noteText? "namespace" (namespaceOf? u s)
    let bases := if s.kind = "enum_declaration" then [] else bases s
    { results :=
        .declare scope.owner d :: attributeFacts u s name ++
          bases.flatMap (baseFacts u name isInterface)
      next := ((s.field? "body").map (·.children)).getD [] |>.map (⟨name, none⟩, ·) }

/-- A parameter of a method: the types it names, and an injection if the method is a constructor. -/
def parameterFacts (u : SourceUnit) (owner name : String) (isConstructor : Bool) (p : Site) : List Fact :=
  match p.fieldText? u.text "type" with
  | none => []
  | some type =>
    let injection :=
      if !isConstructor then []
      else (TypeRef.ofText .csharp type).outer.toList.map fun target =>
        .inject owner target p.line [
          ("parameter", .str ((p.fieldText? u.text "name").getD "")),
          ("is_interface", .bool (TypeRef.isInterfaceName target))]
    typeFacts .csharp name type .acceptsType p.line ++ injection

/-- Whether a site is the first of its siblings under the field for bodies. -/
def isBody (s : Site) : Bool :=
  s.info.field = "body" && !s.allPrevious.any (·.info.field = "body")

/-- A method or constructor: its declaration, attributes, parameters and result, and then its body. -/
def visitMethod (u : SourceUnit) (scope : Scope) (s : Site) : Visit Scope Fact s :=
  match s.fieldText? u.text "name" with
  | none => .done []
  | some plain =>
    let name := qualify u.path scope.owner plain
    let isConstructor := s.kind = "constructor_declaration"
    let d := declaration u .method name s
    let d := if isConstructor then d.addTag "constructor" else d
    let parameters := ((s.fieldSite? "parameters").map (·.sitesOf "parameter")).getD []
    let returns := (s.fieldText? u.text "returns").or (s.fieldText? u.text "type")
    let bodies := s.children.filter fun c =>
      c.site.kind = "arrow_expression_clause" || isBody c.site
    { results :=
        .declare scope.owner d :: attributeFacts u s name ++
          parameters.flatMap (parameterFacts u scope.owner name isConstructor) ++
          (returns.map (typeFacts .csharp name · .returnsType s.line)).getD []
      next := bodies.map (⟨scope.owner, some name⟩, ·) }

/-- A property: its declaration, attributes and type, and then its accessors. -/
def visitProperty (u : SourceUnit) (scope : Scope) (s : Site) : Visit Scope Fact s :=
  match s.fieldText? u.text "name" with
  | none => .done []
  | some plain =>
    let name := qualify u.path scope.owner plain
    let type := s.fieldText? u.text "type"
    let bodies := s.children.filter fun c =>
      c.site.kind = "accessor_list" || c.site.kind = "arrow_expression_clause"
    { results :=
        .declare scope.owner (declaration u .property name s) :: attributeFacts u s name ++
          (type.map (typeFacts .csharp name · .hasType s.line)).getD []
      next := bodies.map (⟨scope.owner, some name⟩, ·) }

/-- What is called, and what it is called on. -/
def calledName (u : SourceUnit) (function : Site) : Option String × Option String :=
  if function.kind = "member_access_expression" then
    (function.fieldText? u.text "name", function.fieldText? u.text "expression")
  else if function.kind = "identifier" || function.kind = "generic_name" then
    (some (function.text u.text), none)
  else (none, none)

def callFacts (u : SourceUnit) (member : String) (s : Site) : List Fact :=
  match s.fieldSite? "function" with
  | none => []
  | some function =>
    let (callee, receiver) := calledName u function
    match (callee.map TypeRef.baseName).filter (!·.isEmpty) with
    | none => []
    | some callee =>
      [.relate member callee .calls s.line (receiver.toList.map fun r => ("receiver", .str r))]

/-- The type that a throw constructs. -/
def throwFacts (u : SourceUnit) (member : String) (s : Site) : List Fact :=
  ((s.childSite? "object_creation_expression").bind (·.fieldText? u.text "type")).toList.map
    fun type => .edge member (TypeRef.baseName type) .throws s.line

/-- What the body of a member does at a node; nodes that do nothing are passed through. -/
def visitBody (u : SourceUnit) (scope : Scope) (member : String) (s : Site) : Visit Scope Fact s :=
  if s.kind = "invocation_expression" then .onward scope (callFacts u member s)
  else if s.kind = "object_creation_expression" then
    .onward scope
      (((s.fieldText? u.text "type").map (typeFacts .csharp member · .uses s.line)).getD [])
  else if s.kind = "throw_statement" || s.kind = "throw_expression" then
    .onward scope (throwFacts u member s)
  else if s.kind = "catch_declaration" then
    .done ((s.fieldText? u.text "type").toList.map fun type =>
      .edge member (TypeRef.baseName type) .catches s.line)
  else .onward scope []

def visit (u : SourceUnit) (scope : Scope) (s : Site) : Visit Scope Fact s :=
  if s.kind = "using_directive" then .done (importFacts u s)
  else if typeKinds.contains s.kind then visitType u scope s
  else if s.kind = "method_declaration" || s.kind = "constructor_declaration" then
    visitMethod u scope s
  else if s.kind = "property_declaration" then visitProperty u scope s
  else
    match scope.member with
    | some member => visitBody u scope member s
    | none => .onward scope []

def facts (path text : String) (tree : Tree) : List Fact :=
  explore (visit ⟨path, text⟩) { owner := path } (.root tree)

def survey (settings : Settings) (fs : FileSystem) (source : Source)
    (bank : Bank := Detect.CSharp.bank) : Report :=
  let place := source.place settings fs
  let report := Report.opening place source.content "C#"
  if source.cancelled then report.fail (.cancelled source.path)
  else
    match source.tree with
    | none => report.fail (.unavailable "Failed to parse content")
    | some tree =>
      let report := (tree.firstErrorLine?.map report.flagSyntaxError).getD report
      let report := report.recordAll place (facts source.path source.content tree)
      report.detect settings.detectors bank
        { filePath := source.path, context := place.context, source := source.content, tree := tree }

def frontend (settings : Settings) : Frontend where
  language := "C#"
  extensions := ["cs"]
  survey fs source := .ok (survey settings fs source)

end CodeSurvey.CSharp
