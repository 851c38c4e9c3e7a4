import CodeSurvey.Detect.Python
import CodeSurvey.Frontend.Basic
import CodeSurvey.Frontend.Facts
import CodeSurvey.Syntax.Comment
import CodeSurvey.Syntax.Explore

/-!
# Python sources

Classes and functions outside of function bodies are declared. A function within a function is none
of its own: what its body does counts toward the function around it. A text with a syntax error is
not surveyed any further.
-/

namespace CodeSurvey.Python

inductive Scope where
  /-- Anywhere; the owner is the path of the file or a class, the member has the body around. -/
  | inside (owner : String) (member : Option String)
  /-- Directly in the body of a class. -/
  | itemOf (type : String)
  /-- Directly in the body of a function. -/
  | statementOf (owner member : String)
  deriving Repr, DecidableEq

def decorated? (s : Site) : Option Site := s.parent?.filter (·.kind = "decorated_definition")

/-- The text of a doc string up to its first blank line, on one line. -/
def docText (literal : String) : String :=
  let bare := Text.trim (Text.trimWhere (fun c => c == '"' || c == '\'')
    (Text.trimStartWhere Char.isAlpha literal))
  String.intercalate " " (((Text.lines bare).map Text.trim).takeWhile (!·.isEmpty))

/-- The doc string of a block: its first statement if that is a bare text. -/
def docString? (u : SourceUnit) (body : Site) : Option String :=
  let statement := body.namedSites.head?.filter (·.kind = "expression_statement")
  let literal := (statement.bind (·.namedSites.head?)).filter (·.kind = "string")
  (literal.map fun l => docText (l.text u.text)).filter (!·.isEmpty)

def declaration (u : SourceUnit) (kind : ElementKind) (name : String) (s : Site) : Declaration where
  kind := kind
  name := name
  content := ((decorated? s).getD s).text u.text
  lineNumber := ((decorated? s).getD s).line
  summary := ((s.fieldSite? "body").bind (docString? u)).getD ""
  signature := s.signature u.text
  metadata := [("end_line", .nat s.lastLine)]

def decorators (u : SourceUnit) (s : Site) : List (Site × String) :=
  (((decorated? s).map (·.sitesOf "decorator")).getD []).map fun d =>
    (d, TypeRef.baseName (Text.trim (Text.trimStartWhere (· == '@') (d.text u.text))))

def decoratorFacts (u : SourceUnit) (s : Site) (name : String) : List Fact :=
  (decorators u s).map fun (d, decorator) => .edge name decorator .hasAttribute d.line

/-- The tag that a base class gives. -/
def baseTags (base : String) : List String :=
  if base = "ABC" || base = "Protocol" then ["abstract"]
  else if ["Enum", "IntEnum", "StrEnum"].contains base then ["enum"]
  else []

def baseFacts (u : SourceUnit) (name : String) (base : Site) : List Fact :=
  let arguments :=
    if base.kind = "subscript" then
      ((base.fieldText? u.text "subscript").map
        (typeFacts .python name · .usesGeneric base.line)).getD []
    else []
  .edge name (TypeRef.baseName (base.text u.text)) .inherits base.line :: arguments

/-- A class: its declaration, decorators and bases, and then its items. -/
def visitClass (u : SourceUnit) (owner : String) (s : Site) : Visit Scope Fact s :=
  match s.fieldText? u.text "name" with
  | none => .done []
  | some plain =>
    let name := qualify u.path owner plain
    let bases := (((s.fieldSite? "superclasses").map (·.namedSites)).getD []).filter fun b =>
      ["identifier", "attribute", "subscript"].contains b.kind
    let tags := bases.flatMap fun b => baseTags (TypeRef.baseName (b.text u.text))
    let items := ((s.field? "body").map (·.namedChildren)).getD []
    { results :=
        .declare owner ((declaration u .type name s).addTags tags) :: decoratorFacts u s name ++
          bases.flatMap (baseFacts u name)
      next := items.map (.itemOf name, ·) }

/-- The type that a parameter injects: its outer type, or else its first argument. -/
def injectedType? (type : String) : Option String :=
  let r := TypeRef.ofText .python type
  r.outer.or r.arguments.head?

/-- The types that a parameter names; a constructor parameter is injected into its class. -/
def parameterFacts (u : SourceUnit) (name : String) (injected : Option String) (p : Site) :
    List Fact :=
  match p.fieldText? u.text "type" with
  | none => []
  | some type =>
    let parameter := (p.fieldText? u.text "name").or (p.namedSites.head?.map (·.text u.text))
    let injection :=
      match injected, injectedType? type with
      | some owner, some target =>
        [Fact.inject owner target p.line [("parameter", .str (parameter.getD ""))]]
      | _, _ => []
    typeFacts .python name type .acceptsType p.line ++ injection

def functionTags (s : Site) (plain : String) (inClass isConstructor : Bool) : List String :=
  (if (s.childSite? "async").isSome then ["async"] else []) ++
    (if isConstructor then ["constructor"]
      else if Text.startsWith "_" plain && !Text.endsWith "__" plain then ["private"]
      else []) ++
    (if inClass then [] else ["function"])

/-- A function: its declaration, decorators and signature, and then its body. A method with the
`property` decorator is a property. -/
def visitFunction (u : SourceUnit) (owner : String) (s : Site) : Visit Scope Fact s :=
  match s.fieldText? u.text "name" with
  | none => .done []
  | some plain =>
    let name := qualify u.path owner plain
    let inClass := owner != u.path
    let isConstructor := inClass && plain = "__init__"
    let isProperty := inClass && (decorators u s).any fun (_, d) => d = "property"
    let kind := if isProperty then ElementKind.property else .method
    let parameters := (((s.fieldSite? "parameters").map (·.namedSites)).getD []).filter fun p =>
      p.kind = "typed_parameter" || p.kind = "typed_default_parameter"
    let returns := s.fieldText? u.text "return_type"
    let statements := ((s.field? "body").map (·.children)).getD []
    { results :=
        .declare owner ((declaration u kind name s).addTags
            (functionTags s plain inClass isConstructor)) ::
          decoratorFacts u s name ++
          parameters.flatMap (parameterFacts u name (if isConstructor then some owner else none)) ++
          (returns.map (typeFacts .python name · .returnsType s.line)).getD []
      next := statements.map (.statementOf owner name, ·) }

/-- A field of a class, declared by an assignment to a plain name. -/
def fieldFacts (u : SourceUnit) (type : String) (assignment : Site) : List Fact :=
  match (assignment.fieldSite? "left").filter (·.kind = "identifier") with
  | none => []
  | some left =>
    let name := qualify u.path type (left.text u.text)
    let reference := assignment.fieldText? u.text "type"
    .declare type (declaration u .property name assignment) ::
      (reference.map (typeFacts .python name · .hasType assignment.line)).getD []

def calledName (u : SourceUnit) (function : Site) : Option String × Option String :=
  if function.kind = "attribute" then
    (function.fieldText? u.text "attribute", function.fieldText? u.text "object")
  else if function.kind = "identifier" then (some (function.text u.text), none)
  else (none, none)

/-- The call that an expression makes. Calling a plain name with a capital constructs an object. -/
def callFacts (u : SourceUnit) (member : String) (s : Site) : List Fact :=
  match (s.fieldSite? "function").map (calledName u) with
  | some (some callee, receiver) =>
    let constructs := callee.toList.head?.any Char.isUpper && receiver.isNone
    [.relate member callee (if constructs then .uses else .calls) s.line
      (receiver.toList.map fun r => ("receiver", .str r))]
  | _ => []

/-- Whether a node is a name, dotted or not. -/
def isNameNode (s : Site) : Bool := s.kind = "identifier" || s.kind = "attribute"

def raiseFacts (u : SourceUnit) (member : String) (s : Site) : List Fact :=
  let raised := s.namedSites.head?.map fun n =>
    if n.kind = "call" then (n.fieldSite? "function").getD n else n
  ((raised.filter isNameNode).toList).map fun n => .edge member (n.text u.text) .throws s.line

def exceptFacts (u : SourceUnit) (member : String) (s : Site) : List Fact :=
  match s.namedSites.head?.filter (·.kind != "block") with
  | none => []
  | some first =>
    let caught := if first.kind = "as_pattern" then first.namedSites.head?.getD first else first
    let types :=
      if caught.kind = "tuple" || caught.kind = "parenthesized_expression" then caught.namedSites
      else [caught]
    (types.filter isNameNode).map fun n => .edge member (n.text u.text) .catches s.line

def bodyFacts (u : SourceUnit) (member : String) (s : Site) : List Fact :=
  if s.kind = "call" then callFacts u member s
  else if s.kind = "raise_statement" then raiseFacts u member s
  else if s.kind = "except_clause" then exceptFacts u member s
  else []

def importEdge (u : SourceUnit) (module : Site) : Fact :=
  .edge u.path (module.text u.text) .imports module.line

def importFacts (u : SourceUnit) (s : Site) : List Fact :=
  (s.fields "name").map fun n =>
    importEdge u (if n.site.kind = "aliased_import" then (n.site.fieldSite? "name").getD n.site
      else n.site)

def visitInside (u : SourceUnit) (owner : String) (member : Option String) (s : Site) :
    Visit Scope Fact s :=
  if s.kind = "import_statement" then .done (importFacts u s)
  else if s.kind = "import_from_statement" then
    .done ((s.fieldSite? "module_name").toList.map (importEdge u))
  else
    match member with
    | some name => .onward (.inside owner member) (bodyFacts u name s)
    | none =>
      if s.kind = "class_definition" then visitClass u owner s
      else if s.kind = "function_definition" then visitFunction u owner s
      else .onward (.inside owner none) []

/-- An item of a class: a field, a definition, or anything else. -/
def visitItem (u : SourceUnit) (type : String) (s : Site) : Visit Scope Fact s :=
  if s.kind = "expression_statement" then
    .done (((s.namedSites.head?.filter (·.kind = "assignment")).map (fieldFacts u type)).getD [])
  else if s.kind = "decorated_definition" then
    { next := (s.field? "definition").toList.map (.inside type none, ·) }
  else visitInside u type none s

/-- A statement of a function. Of a definition within the function only the body counts. -/
def visitStatement (u : SourceUnit) (owner member : String) (s : Site) : Visit Scope Fact s :=
  if s.kind = "function_definition" || s.kind = "class_definition" then
    { next := (((s.field? "body").map (·.children)).getD []).map (.statementOf owner member, ·) }
  else visitInside u owner (some member) s

def visit (u : SourceUnit) (scope : Scope) (s : Site) : Visit Scope Fact s :=
  match scope with
  | .inside owner member => visitInside u owner member s
  | .itemOf type => visitItem u type s
  | .statementOf owner member => visitStatement u owner member s

def facts (path text : String) (tree : Tree) : List Fact :=
  explore (visit ⟨path, text⟩) (.inside path none) (.root tree)

/-- The syntax tree of a text, refused when it has an error. -/
def checkedTree (path : String) (tree : Option Tree) : Except Failure Tree :=
  match tree with
  | none => .error (.unavailable "Python runtime returned no tree")
  | some tree =>
    match tree.firstErrorLine? with
    | some line => .error (.badSyntax path line "invalid syntax")
    | none => .ok tree

def survey (settings : Settings) (fs : FileSystem) (source : Source)
    (bank : Bank := Detect.Python.bank) : Report :=
  let place := source.place settings fs
  let report := Report.opening place source.content "Python"
  if source.cancelled then report.fail (.cancelled source.path)
  else
    match checkedTree source.path source.tree with
    | .error failure =>
      let report :=
        match failure with
        | .badSyntax _ line _ => report.flagSyntaxError line
        | _ => report
      report.fail failure
    | .ok tree =>
      let report := report.recordAll place (facts source.path source.content tree)
      report.detect settings.detectors bank
        { filePath := source.path, context := place.context, source := source.content, tree := tree }

def frontend (settings : Settings) : Frontend where
  language := "Python"
  extensions := ["py"]
  survey fs source := .ok (survey settings fs source)

end CodeSurvey.Python
