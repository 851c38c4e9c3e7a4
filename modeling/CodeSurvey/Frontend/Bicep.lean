import CodeSurvey.Code.Listing
import CodeSurvey.Detect.Bicep
import CodeSurvey.Frontend.Basic
import CodeSurvey.Frontend.Facts

/-!
# Bicep templates

The declarations of a template stand one after the other, each from its keyword to the line on which
its brackets are closed. Decorators belong to the declaration that follows them. A declaration uses
the symbols of others that its text names.
-/

namespace CodeSurvey.Bicep

/-! ## The shapes of declarations -/

section Shapes

open Regex

/-- The name of a type, possibly of a list. -/
def typeName : Regex := all [plus (set (.anyOf [.word, .one '.'])), opt (lit "[]")]

/-- The scope that a template is deployed to; group 1 is its name. -/
def targetScope : Regex :=
  all [
    start, lit "targetScope", blanks, lit "=", blanks, lit "'", group 1 (plus (set (.notChars "'"))),
    lit "'"]

/-- A parameter; its groups are symbol and type. -/
def parameterHead : Regex :=
  all [start, lit "param", gap, group 1 (plus word), gap, group 2 typeName]

/-- A variable; group 1 is its symbol. -/
def variableHead : Regex := all [start, lit "var", gap, group 1 (plus word), blanks, lit "="]

/-- A resource; its groups are symbol, type, version and the mark of an existing one. -/
def resourceHead : Regex :=
  all [
    start, lit "resource", gap, group 1 (plus word), gap, lit "'",
    group 2 (plus (set (.notChars "'@"))), opt (all [lit "@", group 3 (plus (set (.notChars "'")))]),
    lit "'", opt (group 4 (all [gap, lit "existing"]))]

/-- A module; its groups are symbol and source. -/
def moduleHead : Regex :=
  all [
    start, lit "module", gap, group 1 (plus word), gap, lit "'", group 2 (plus (set (.notChars "'"))),
    lit "'"]

/-- An output; its groups are symbol and type. -/
def outputHead : Regex :=
  all [start, lit "output", gap, group 1 (plus word), gap, group 2 typeName]

/-- A type; group 1 is its symbol. -/
def typeHead : Regex := all [start, lit "type", gap, group 1 (plus word), blanks, lit "="]

/-- A decorator; its groups are name and arguments. -/
def decorator : Regex :=
  all [
    start, lit "@", opt (lit "sys."), group 1 (plus word), blanks,
    opt (all [lit "(", group 2 (many (set .notNewline)), lit ")"])]

/-- A call; group 1 is what is called. -/
def callSite : Regex := all [edge, group 1 (all [set (.range 'a' 'z'), many word]), blanks, lit "("]

def symbol : Regex := all [edge, set .nameStart, many word, edge]

end Shapes

/-- What a declaration declares. -/
inductive Shape where
  | parameter
  | binding
  | resource
  | nested
  | output
  | type
  deriving Repr, DecidableEq

namespace Shape

/-- The shapes in the order in which they are tried. -/
def all : List Shape := [parameter, binding, resource, nested, output, type]

def keyword : Shape → String
  | parameter => "param"
  | binding => "var"
  | resource => "resource"
  | nested => "module"
  | output => "output"
  | type => "type"

def head : Shape → Regex
  | parameter => parameterHead
  | binding => variableHead
  | resource => resourceHead
  | nested => moduleHead
  | output => outputHead
  | type => typeHead

def kind : Shape → ElementKind
  | parameter | binding | output => .property
  | resource | nested | type => .type

end Shape

/-- A declaration from its first to its last line, with the decorators before it. -/
structure Member where
  shape : Shape
  symbol : String
  start : Nat
  stop : Nat
  decorators : List (String × String)
  deriving Repr

/-- What stands at the top level of a template. -/
inductive Item where
  | scope (name : String)
  | member (m : Member)
  deriving Repr

/-- The lines of a template as written, and as code. -/
structure Template where
  path : String
  raw : List String
  code : List String
  deriving Repr

def Template.ofText (path text : String) : Template :=
  let raw := Text.lines text
  { path, raw, code := raw.map (Code.codeLine "//") }

/-- How many more brackets a line opens than it closes. -/
def bracketBalance (line : String) : Int :=
  line.toList.foldl (fun n c =>
    if "\x7b[(".toList.contains c then n + 1
    else if "\x7d])".toList.contains c then n - 1
    else n) 0

/-- Index of the line on which all brackets are closed, where the first of the lines has index `i`
and the last line of all has index `last`. -/
def spanEndFrom (last : Nat) (depth : Int) : List String → Nat → Nat
  | [], _ => last
  | line :: lines, i =>
    let depth := depth + bracketBalance line
    if depth ≤ 0 then i else spanEndFrom last depth lines (i + 1)

def spanEnd (t : Template) (start : Nat) : Nat :=
  spanEndFrom (t.raw.length - 1) 0 (t.code.drop start) start

/-- The shape and the symbol that a line declares. -/
def declared? (line : String) : Option (Shape × String) :=
  Shape.all.findSome? fun shape => (shape.head.find? line).map fun m => (shape, m.group 1)

/-- The items of the lines from `start` on; `skip` lines still belong to the last declaration, and
`pending` are the decorators that wait for theirs. -/
def itemsFrom (t : Template) (skip start : Nat) (pending : List (String × String)) :
    List String → List Item
  | [] => []
  | raw :: rest =>
    if 0 < skip then itemsFrom t (skip - 1) (start + 1) pending rest
    else
      let line := Text.trim raw
      let scopes := (targetScope.find? line).toList.map fun m => Item.scope (m.group 1)
      scopes ++
        match decorator.find? line with
        | some m => itemsFrom t 0 (start + 1) (pending ++ [(m.group 1, m.group 2)]) rest
        | none =>
          match declared? line with
          | some (shape, symbol) =>
            let stop := spanEnd t start
            .member ⟨shape, symbol, start, stop, pending⟩ ::
              itemsFrom t (stop - start) (start + 1) [] rest
          | none =>
            let keeps := line.isEmpty || Text.startsWith "//" line
            itemsFrom t 0 (start + 1) (if keeps then pending else []) rest

def items (t : Template) : List Item := itemsFrom t 0 0 [] t.raw

def members (t : Template) : List Member :=
  (items t).filterMap fun
    | .member m => some m
    | .scope _ => none

/-- The scope that a template is deployed to; the last one stated counts. -/
def scope? (t : Template) : Option String :=
  ((items t).filterMap fun
    | .scope name => some name
    | .member _ => none).getLast?

/-! ## Facts -/

def header (t : Template) (m : Member) : String := Text.trim (t.raw.getD m.start "")

/-- The summary that decorators give; the last description counts. -/
def summaryOf (decorators : List (String × String)) : String :=
  (((decorators.filter fun d => d.1 = "description").getLast?).map fun d =>
    Text.trimWhere (· == '\'') (Text.trim d.2)).getD ""

/-- What the head of a resource or module adds to its declaration. -/
def addHead (m : Member) (head : Option Match) (d : Declaration) : Declaration :=
  match m.shape, head with
  | .resource, some h =>
    let d := (d.addTag (h.group 2)).note "resource_type" (.str (h.group 2))
    let d := d.noteText? "api_version" (h.group? 3)
    if (h.group? 4).isSome then d.addTag "existing" else d
  | .nested, some h => d.addDependency (h.group 2)
  | _, _ => d

def declaration (t : Template) (m : Member) : Declaration :=
  let header := header t m
  let d : Declaration := {
    kind := m.shape.kind
    name := m.symbol
    content := Text.joinLines ((t.raw.drop m.start).take (m.stop + 1 - m.start))
    lineNumber := m.start + 1
    summary := summaryOf m.decorators
    signature := Text.trim (Text.trimEndWhere (· == '\x7b') header)
    tags := [m.shape.keyword]
    metadata := [("end_line", .nat (m.stop + 1))] }
  let d := if m.decorators.any fun p => p.1 = "secure" then d.addTag "secure" else d
  addHead m (m.shape.head.find? header) d

/-- The type of a parameter or output unless built in, and the source of a module. -/
def headFacts (t : Template) (m : Member) : List Fact :=
  match m.shape, m.shape.head.find? (header t m) with
  | .parameter, some h | .output, some h =>
    let type := Text.withoutEnds "[]" (h.group 2)
    if ["string", "int", "bool", "object", "array", "any"].contains type then []
    else [.edge m.symbol type .hasType (m.start + 1)]
  | .nested, some h => [.edge m.symbol (h.group 2) .imports (m.start + 1)]
  | _, _ => []

/-- The lines of a declaration as code with their numbers, the first from its equals sign on. -/
def bodyLines (t : Template) (m : Member) : List (String × Nat) :=
  let lines := (t.code.drop m.start).take (m.stop + 1 - m.start)
  let lines :=
    match lines with
    | [] => []
    | first :: rest =>
      Text.drop (((Text.find? "=" first).map (· + 1)).getD 0) first :: rest
  lines.zipIdx (m.start + 1)

/-- The symbols of other declarations that a line names; what follows a dot is no symbol. -/
def symbolsIn (symbols : List String) (own code : String) : List String :=
  ((symbol.findAll code).filter fun m =>
    m.text != own && symbols.contains m.text && !Text.endsWith "." (Text.take m.start code)).map
      (·.text)

/-- Keeps the first entry of each name. -/
def firstOfEach : List (String × Nat) → List (String × Nat)
  | [] => []
  | (name, line) :: rest => (name, line) :: (firstOfEach rest).filter fun e => e.1 != name

/-- The symbols that a declaration uses, sorted, each with the first line that names it. -/
def uses (t : Template) (symbols : List String) (m : Member) : List (String × Nat) :=
  let named := (bodyLines t m).flatMap fun (code, line) =>
    (symbolsIn symbols m.symbol code).map (·, line)
  (firstOfEach named).mergeSort fun a b => !(b.1 < a.1)

/-- Words before a parenthesis that are no calls. -/
def keywords : List String := ["if", "for", "in"]

/-- The functions that a declaration calls, in order. -/
def calledNames (t : Template) (symbols : List String) (m : Member) : List (String × Nat) :=
  (bodyLines t m).flatMap fun (code, line) =>
    (((callSite.findAll code).map (·.group 1)).filter fun callee =>
      !keywords.contains callee && !symbols.contains callee).map (·, line)

def memberFacts (t : Template) (symbols : List String) (m : Member) : List Fact :=
  .declare t.path (declaration t m) ::
    (m.decorators.map fun d => .edge m.symbol d.1 .hasAttribute (m.start + 1)) ++
    headFacts t m ++
    (uses t symbols m).map (fun (name, line) => .edge m.symbol name .uses line) ++
    (calledNames t symbols m).map fun (name, line) => .edge m.symbol name .calls line

def facts (t : Template) : List Fact :=
  let all := members t
  all.flatMap (memberFacts t (all.map (·.symbol)))

def survey (settings : Settings) (fs : FileSystem) (source : Source)
    (bank : Bank := Detect.Bicep.bank) : Report :=
  let place := source.place settings fs
  let report := Report.opening place source.content "Bicep"
  if source.cancelled then report.fail (.cancelled source.path)
  else
    let template := Template.ofText source.path source.content
    let report := report.updateFile (·.noteText? "target_scope" (scope? template))
    let report := report.recordAll place (facts template)
    report.detect settings.detectors bank
      { filePath := source.path, context := place.context, source := source.content }

def frontend (settings : Settings) : Frontend where
  language := "Bicep"
  extensions := ["bicep"]
  capability := .basic
  survey fs source := .ok (survey settings fs source)

end CodeSurvey.Bicep
