import CodeSurvey.Detect.TypeScript
import CodeSurvey.Frontend.Basic
import CodeSurvey.Frontend.Facts
import CodeSurvey.Syntax.Comment
import CodeSurvey.Syntax.Explore

/-!
# TypeScript and JavaScript sources

Classes, interfaces and functions outside of function bodies are declared; what the bodies call,
construct, throw and catch is related to the function or property that they belong to.
-/

namespace CodeSurvey.TypeScript

inductive Scope where
  /-- Anywhere; the owner is the path of the file or a type, the member has the body around. -/
  | inside (owner : String) (member : Option String)
  /-- Directly in the body of a type. -/
  | memberOf (type : String)
  deriving Repr, DecidableEq

def exportOf? (s : Site) : Option Site := s.parent?.filter (·.kind = "export_statement")

/-- The declaration that a node makes. An export around it carries its doc comment. -/
def declaration (u : SourceUnit) (kind : ElementKind) (name : String) (s : Site) : Declaration where
  kind := kind
  name := name
  content := s.text u.text
  lineNumber := s.line
  summary := (((exportOf? s).getD s).docComment? u.text).getD ""
  signature := s.signature u.text
  tags := if (exportOf? s).isSome then ["exported"] else []
  metadata := [("end_line", .nat s.lastLine)]

/-- The decorators of a node: its own, those of an export around it, and those directly before it. -/
def decorators (s : Site) : List Site :=
  s.sitesOf "decorator" ++ (((exportOf? s).map (·.sitesOf "decorator")).getD []) ++
    (s.allPrevious.filter (·.info.named)).takeWhile (·.kind = "decorator")

def decoratorFacts (u : SourceUnit) (s : Site) (name : String) : List Fact :=
  (decorators s).map fun d =>
    .edge name (TypeRef.baseName (Text.trimStartWhere (· == '@') (d.text u.text))) .hasAttribute
      d.line

/-- One item of an `extends` or `implements` clause. -/
def baseFacts (u : SourceUnit) (type : String) (kind : RelationKind) (base : Site) : List Fact :=
  let text := base.text u.text
  if base.kind = "type_arguments" then typeFacts .typescript type text .usesGeneric base.line
  else
    .edge type (TypeRef.baseName text) kind base.line ::
      (TypeRef.ofText .typescript text).arguments.map (Fact.edge type · .usesGeneric base.line)

/-- One clause of the heritage of a class; an expression stands for the class it extends. -/
def heritageFacts (u : SourceUnit) (type : String) (clause : Site) : List Fact :=
  if clause.kind = "extends_clause" then clause.namedSites.flatMap (baseFacts u type .inherits)
  else if clause.kind = "implements_clause" then
    clause.namedSites.flatMap (baseFacts u type .implements)
  else [.edge type (TypeRef.baseName (clause.text u.text)) .inherits clause.line]

/-- The items of the body of a type, to be visited as its members. -/
def memberVisits (type : String) (s : Site) : List (Scope × Site.Below s) :=
  (((s.field? "body").map (·.namedChildren)).getD []).map (.memberOf type, ·)

/-- A class: its declaration, decorators and bases, and then its members. -/
def visitClass (u : SourceUnit) (owner : String) (s : Site) : Visit Scope Fact s :=
  match s.fieldText? u.text "name" with
  | none => .done []
  | some plain =>
    let name := qualify u.path owner plain
    let d := declaration u .type name s
    let d := if s.kind = "abstract_class_declaration" then d.addTag "abstract" else d
    let clauses := ((s.childSite? "class_heritage").map (·.namedSites)).getD []
    { results :=
        .declare owner d :: decoratorFacts u s name ++ clauses.flatMap (heritageFacts u name)
      next := memberVisits name s }

/-- An interface: its declaration and bases, and then its members. -/
def visitInterface (u : SourceUnit) (owner : String) (s : Site) : Visit Scope Fact s :=
  match s.fieldText? u.text "name" with
  | none => .done []
  | some plain =>
    let name := qualify u.path owner plain
    let bases := ((s.childSite? "extends_type_clause").map (·.namedSites)).getD []
    { results :=
        .declare owner (declaration u .interface name s) ::
          bases.map fun b => .edge name (TypeRef.baseName (b.text u.text)) .inherits b.line
      next := memberVisits name s }

/-- The types that a parameter names; a constructor parameter is injected into its class. -/
def parameterFacts (u : SourceUnit) (name : String) (injected : Option String) (p : Site) :
    List Fact :=
  match p.fieldText? u.text "type" with
  | none => []
  | some type =>
    let injection :=
      match injected, (TypeRef.ofText .typescript type).outer with
      | some owner, some target =>
        [Fact.inject owner target p.line [
          ("parameter", .str ((p.fieldText? u.text "pattern").getD ""))]]
      | _, _ => []
    typeFacts .typescript name type .acceptsType p.line ++ injection

def signatureFacts (u : SourceUnit) (name : String) (injected : Option String) (function : Site) :
    List Fact :=
  let parameters := ((function.fieldSite? "parameters").map (·.namedSites)).getD []
  let returns := function.fieldText? u.text "return_type"
  parameters.flatMap (parameterFacts u name injected) ++
    (returns.map (typeFacts .typescript name · .returnsType function.line)).getD []

/-- A method of a type: its declaration, decorators and signature, and then its body. -/
def visitMethod (u : SourceUnit) (type : String) (s : Site) : Visit Scope Fact s :=
  match s.fieldText? u.text "name" with
  | none => .done []
  | some plain =>
    let name := qualify u.path type plain
    let isConstructor := plain = "constructor"
    let d := declaration u .method name s
    let d := if isConstructor then d.addTag "constructor" else d
    let d := if (s.childSite? "async").isSome then d.addTag "async" else d
    { results :=
        .declare type d :: decoratorFacts u s name ++
          signatureFacts u name (if isConstructor then some type else none) s
      next := (s.field? "body").toList.map (.inside type (some name), ·) }

/-- A property of a type: its declaration, decorators and type, and then its value. -/
def visitProperty (u : SourceUnit) (type : String) (s : Site) : Visit Scope Fact s :=
  match (s.fieldText? u.text "name").or (s.fieldText? u.text "property") with
  | none => .done []
  | some plain =>
    let name := qualify u.path type plain
    let reference := s.fieldText? u.text "type"
    { results :=
        .declare type (declaration u .property name s) :: decoratorFacts u s name ++
          (reference.map (typeFacts .typescript name · .hasType s.line)).getD []
      next := (s.field? "value").toList.map (.inside type (some name), ·) }

def visitMember (u : SourceUnit) (type : String) (s : Site) : Visit Scope Fact s :=
  if ["method_definition", "abstract_method_signature", "method_signature"].contains s.kind then
    visitMethod u type s
  else if ["public_field_definition", "field_definition", "property_signature"].contains s.kind then
    visitProperty u type s
  else .done []

/-- What is stated of a function: its declaration and its signature. -/
def functionFacts (u : SourceUnit) (owner name : String) (s function : Site) : List Fact :=
  .declare owner ((declaration u .method name s).addTag "function") ::
    signatureFacts u name none function

def visitFunction (u : SourceUnit) (owner : String) (s : Site) : Visit Scope Fact s :=
  match s.fieldText? u.text "name" with
  | none => .done []
  | some plain =>
    let name := qualify u.path owner plain
    { results := functionFacts u owner name s s
      next := (s.field? "body").toList.map (.inside owner (some name), ·) }

/-- A variable; one that holds a function is declared like a function. -/
def visitVariable (u : SourceUnit) (owner : String) (s : Site) : Visit Scope Fact s :=
  match s.fieldText? u.text "name", s.field? "value" with
  | some plain, some value =>
    if ["arrow_function", "function_expression", "function"].contains value.site.kind then
      let name := qualify u.path owner plain
      { results := functionFacts u owner name s value.site
        next := (value.field? "body").toList.map (.inside owner (some name), ·) }
    else .onward (.inside owner none) []
  | _, _ => .onward (.inside owner none) []

def calledName (u : SourceUnit) (function : Site) : Option String × Option String :=
  if function.kind = "member_expression" then
    (function.fieldText? u.text "property", function.fieldText? u.text "object")
  else if function.kind = "identifier" then (some (function.text u.text), none)
  else (none, none)

def callFacts (u : SourceUnit) (member : String) (s : Site) : List Fact :=
  match (s.fieldSite? "function").map (calledName u) with
  | some (some callee, receiver) =>
    [.relate member callee .calls s.line (receiver.toList.map fun r => ("receiver", .str r))]
  | _ => []

def bodyFacts (u : SourceUnit) (member : String) (s : Site) : List Fact :=
  if s.kind = "call_expression" then callFacts u member s
  else if s.kind = "new_expression" then
    ((s.fieldText? u.text "constructor").map (typeFacts .typescript member · .uses s.line)).getD []
  else if s.kind = "throw_statement" then
    ((s.childSite? "new_expression").bind (·.fieldText? u.text "constructor")).toList.map fun type =>
      .edge member (TypeRef.baseName type) .throws s.line
  else if s.kind = "catch_clause" then
    ((s.fieldText? u.text "type").map (typeFacts .typescript member · .catches s.line)).getD []
  else []

def importFacts (u : SourceUnit) (s : Site) : List Fact :=
  (s.fieldText? u.text "source").toList.map fun text =>
    .edge u.path (Text.trimWhere (fun c => c == '"' || c == '\'' || c.toNat == 96) text) .imports
      s.line

def visitOuter (u : SourceUnit) (owner : String) (s : Site) : Visit Scope Fact s :=
  if ["class_declaration", "abstract_class_declaration", "class"].contains s.kind then
    visitClass u owner s
  else if s.kind = "interface_declaration" then visitInterface u owner s
  else if s.kind = "function_declaration" || s.kind = "generator_function_declaration" then
    visitFunction u owner s
  else if s.kind = "variable_declarator" then visitVariable u owner s
  else .onward (.inside owner none) []

def visit (u : SourceUnit) (scope : Scope) (s : Site) : Visit Scope Fact s :=
  match scope with
  | .memberOf type => visitMember u type s
  | .inside owner member =>
    if s.kind = "import_statement" then .done (importFacts u s)
    else
      match member with
      | none => visitOuter u owner s
      | some name => .onward scope (bodyFacts u name s)

def facts (path text : String) (tree : Tree) : List Fact :=
  explore (visit ⟨path, text⟩) (.inside path none) (.root tree)

def languageOf (path : String) : String :=
  let extension := ((extensionAsWritten? path).map Text.lowerAscii).getD ""
  if ["ts", "mts", "cts"].contains extension then "TypeScript"
  else if extension = "tsx" then "TSX"
  else "JavaScript"

def survey (settings : Settings) (fs : FileSystem) (source : Source)
    (bank : Bank := Detect.TypeScript.bank) : Report :=
  let place := source.place settings fs
  let report := Report.opening place source.content (languageOf source.path)
  if source.cancelled then report.fail (.cancelled source.path)
  else
    match source.tree with
    | none => report.fail (.unavailable "Failed to parse content")
    | some tree =>
      let report := (tree.firstErrorLine?.map report.flagSyntaxError).getD report
      let report := report.recordAll place (facts source.path source.content tree)
      report.detect settings.detectors bank
        { filePath := source.path, context := place.context, source := source.content, tree := tree }

def frontend (settings : Settings) : Frontend where
  language := "TypeScript"
  extensions := ["ts", "tsx", "js", "jsx", "mjs", "cjs"]
  survey fs source := .ok (survey settings fs source)

end CodeSurvey.TypeScript
