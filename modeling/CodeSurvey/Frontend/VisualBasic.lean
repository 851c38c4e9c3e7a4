import CodeSurvey.Code.Calls
import CodeSurvey.Code.DocLines
import CodeSurvey.Code.Listing
import CodeSurvey.Detect.VisualBasic
import CodeSurvey.Frontend.Basic
import CodeSurvey.Frontend.Facts

/-!
# Visual Basic sources

Declarations are recognised statement by statement, and blocks are closed by their `End` statements.
The text of a block is known when it is closed. Blocks that are never closed run to the end of the
file. Inside a member only what its statements do is recorded.
-/

namespace CodeSurvey.VisualBasic

open Code (Listing)

/-! ## The shapes of statements -/

section Shapes

open Regex

def modifiers : Regex :=
  many (all [
    oneOfAnyCase [
      "Public", "Private", "Protected", "Friend", "Partial", "MustInherit", "NotInheritable",
      "Shared", "Shadows", "Overrides", "Overridable", "NotOverridable", "MustOverride", "Overloads",
      "Async", "Iterator", "ReadOnly", "WriteOnly", "Default", "Static", "WithEvents", "Const"],
    gap])

def dotted : Regex := plus (set (.anyOf [.word, .one '.']))

/-- An import; group 1 is its target. -/
def importHead : Regex :=
  all [
    start, litAnyCase "Imports", gap, opt (all [plus word, blanks, lit "=", blanks]), group 1 dotted]

/-- The start of a namespace; group 1 is its name. -/
def namespaceHead : Regex := all [start, litAnyCase "Namespace", gap, group 1 dotted]

/-- The start of a type; its groups are modifiers, keyword and name. -/
def typeHead : Regex :=
  all [
    start, group 1 modifiers,
    group 2 (oneOfAnyCase ["Class", "Module", "Structure", "Interface", "Enum"]), gap,
    group 3 (plus word)]

/-- The start of a method; its groups are modifiers, keyword and name. -/
def methodHead : Regex :=
  all [
    start, group 1 modifiers, opt (all [litAnyCase "Declare", gap, many word, blanks]),
    group 2 (oneOfAnyCase ["Sub", "Function"]), gap, group 3 (plus word)]

/-- The start of a property; its groups are modifiers, name and the rest. -/
def propertyHead : Regex :=
  all [
    start, group 1 modifiers, litAnyCase "Property", gap, group 2 (plus word),
    group 3 (many (set .notNewline)), stop]

/-- A field; its groups are name and type. -/
def fieldHead : Regex :=
  all [
    start, oneOfAnyCase ["Public", "Private", "Protected", "Friend", "Dim"], gap,
    many (all [oneOfAnyCase ["ReadOnly", "Shared", "Shadows", "WithEvents", "Const"], gap]),
    group 1 (plus word), gap, litAnyCase "As", gap, opt (all [litAnyCase "New", gap]),
    group 2 (plusLazy (set .notNewline)), blanks, opt (all [lit "=", many (set .notNewline)]), stop]

/-- The end of a block; group 1 is its keyword. -/
def blockEnd : Regex :=
  all [
    start, litAnyCase "End", gap,
    group 1 (oneOfAnyCase [
      "Namespace", "Class", "Module", "Structure", "Interface", "Enum", "Sub", "Function",
      "Property"]),
    edge]

/-- The bases of a type; its groups are keyword and list. -/
def heritage : Regex :=
  all [
    start, group 1 (oneOfAnyCase ["Inherits", "Implements"]), gap,
    group 2 (plus (set .notNewline)), stop]

/-- The start of an accessor of a property. -/
def accessor : Regex :=
  all [
    start, opt (all [oneOfAnyCase ["Public", "Private", "Protected", "Friend"], gap]),
    oneOfAnyCase ["Get", "Set"], edge]

/-- Attributes in angle brackets; group 1 is what they hold. -/
def attributeBlock : Regex :=
  all [start, lit "<", group 1 (many (set (.notChars ">"))), lit ">", blanks, opt (lit "_"), blanks]

/-- One attribute of a block; group 1 is its name. -/
def attributeName : Regex :=
  all [
    any [start, lit ","], blanks, opt (all [plus word, lit ":", blanks]),
    group 1 (all [set .nameStart, many (set (.anyOf [.word, .one '.']))])]

/-- A function without a name whose body goes on over several lines. -/
def openLambda : Regex :=
  all [
    edge, oneOfAnyCase ["Sub", "Function"], blanks, lit "(", many (set (.notChars ")")), lit ")",
    blanks, stop]

/-- The construction of an object; group 1 is its type. -/
def construction : Regex :=
  all [
    edge, litAnyCase "New", gap,
    group 1 (all [
      set (.anyCase .nameStart), many (set (.anyOf [.word, .one '.'])),
      opt (all [blanks, lit "(", blanks, litAnyCase "Of", gap, many (set (.notChars ")")), lit ")"])])]

/-- A throw of a new exception; group 1 is its type. -/
def throwNew : Regex :=
  all [start, litAnyCase "Throw", gap, litAnyCase "New", gap, group 1 dotted]

/-- A catch of an exception; group 1 is its type. -/
def catchHead : Regex :=
  all [start, litAnyCase "Catch", gap, plus word, gap, litAnyCase "As", gap, group 1 dotted]

end Shapes

def keywords : List String :=
  ["If", "ElseIf", "While", "For", "Each", "Select", "Case", "Using", "SyncLock", "With", "Return",
    "Not", "And", "Or", "AndAlso", "OrElse", "Sub", "Function", "New", "Of", "CType", "DirectCast",
    "TryCast", "GetType", "NameOf", "CStr", "CInt", "CLng", "CDbl", "CBool", "CDate", "CDec", "CObj",
    "Throw", "Await", "In", "Is", "IsNot", "Dim"]

/-! ## Parts of statements -/

/-- The characters up to the parenthesis that closes `depth` open ones, and those after it. -/
def closing? (depth : Nat) (inner : List Char) : List Char → Option (List Char × List Char)
  | [] => none
  | '(' :: cs => closing? (depth + 1) ('(' :: inner) cs
  | ')' :: cs =>
    if depth ≤ 1 then some (inner.reverse, cs) else closing? (depth - 1) (')' :: inner) cs
  | c :: cs => closing? depth (c :: inner) cs

/-- What a text holds in the parentheses it starts with, and what follows them. -/
def parenthesized? (text : String) : Option (String × String) :=
  match text.toList with
  | '(' :: cs => (closing? 1 [] cs).map fun (inner, rest) => (String.ofList inner, String.ofList rest)
  | _ => none

/-- The pieces between commas outside of brackets; `pending` is the piece being read. -/
def topLevelPieces (opening closing : Char → Bool) (depth : Int) (pending : List Char) :
    List Char → List (List Char)
  | [] => [pending.reverse]
  | c :: cs =>
    if opening c then topLevelPieces opening closing (depth + 1) (c :: pending) cs
    else if closing c then topLevelPieces opening closing (depth - 1) (c :: pending) cs
    else if c == ',' && depth == 0 then
      pending.reverse :: topLevelPieces opening closing depth [] cs
    else topLevelPieces opening closing depth (c :: pending) cs

/-- The trimmed pieces of a list with commas; a piece that is empty does not count at the end. -/
def listPieces (text : String) : List String :=
  let pieces := (topLevelPieces (fun c => c == '(' || c == '\x7b') (fun c => c == ')' || c == '\x7d') 0
    [] text.toList).map fun p => Text.trim (String.ofList p)
  if pieces.getLast? = some "" then pieces.dropLast else pieces

def parameter? (parameter : String) : Option (String × String) := do
  let parameter := Text.trim (Text.beforeFirst (· == '=') parameter)
  let i ← Text.find? " as " (Text.lowerAscii parameter)
  let name ← (Text.words (Text.take i parameter)).getLast?
  let type := Text.withoutStart "New " (Text.trim (Text.drop (i + 4) parameter))
  some (Text.withoutEnds "()" name, type)

/-- The type that an `As` clause states, without the clauses that may follow it. -/
def asClause? (text : String) : Option String :=
  let text := Text.trim text
  if !Text.startsWith "as " (Text.lowerAscii text) then none
  else
    let type := Text.withoutStart "New " (Text.trim (Text.drop 3 text))
    let lower := Text.lowerAscii type
    let ends := [" implements ", " handles ", " = "].filterMap (Text.find? · lower)
    some (Text.trim (Text.take (ends.foldl min type.length) type))

/-! ## Blocks -/

/-- An open block. The position is that of its element in the report. -/
inductive Scope where
  | namespace (name : String)
  | type (name : String) (start position : Nat) (isInterface : Bool)
  | member (name : String) (start position : Nat)
  deriving Repr, DecidableEq

/-- How far a source has been read: the open blocks, innermost first, the attributes that wait for
their declaration, the open functions without names, and the number of elements declared. -/
structure State where
  scopes : List Scope := []
  attributes : List (String × Nat) := []
  lambdas : Nat := 0
  declared : Nat := 0
  deriving Repr

structure Document where
  path : String
  listing : Listing
  deriving Repr

namespace State

def openType? (s : State) : Option (String × Bool) :=
  s.scopes.findSome? fun
    | .type name _ _ isInterface => some (name, isInterface)
    | _ => none

/-- What owns a declaration: the innermost open type, or the file. -/
def owner (s : State) (path : String) : String := (s.openType?.map (·.1)).getD path

def namespace? (s : State) : Option String :=
  let names := s.scopes.reverse.filterMap fun
    | .namespace name => some name
    | _ => none
  if names.isEmpty then none else some (String.intercalate "." names)

def enter (s : State) (scope : Scope) : State := { s with scopes := scope :: s.scopes }

/-- What is known when a block ends on a line: the text of its element. -/
def closeFacts (listing : Listing) (stop : Nat) (scope : Scope) : List Fact :=
  let stop := min stop listing.last
  match scope with
  | .namespace _ => []
  | .type _ start position _ | .member _ start position =>
    [.close position (listing.span start (max stop start)) (stop + 1)]

def close (listing : Listing) (s : State) (stop : Nat) : State × List Fact :=
  match s.scopes with
  | [] => (s, [])
  | scope :: rest => ({ s with scopes := rest }, closeFacts listing stop scope)

end State

/-! ## Declarations -/

/-- Declares something on a line. It takes the attributes that wait. -/
def declare (t : Document) (s : State) (kind : ElementKind) (name : String) (tags : List String)
    (line : Nat) : State × List Fact :=
  let d : Declaration := {
    kind, name
    content := t.listing.rawAt line
    lineNumber := line + 1
    summary := (Code.docAfter "'''" (t.listing.trimmed.take line)).getD ""
    signature := t.listing.codeAt line }
  let d := (d.addTags tags).noteText? "namespace" (if kind = .method then none else s.namespace?)
  ({ s with attributes := [], declared := s.declared + 1 },
    .declare (s.owner t.path) d ::
      s.attributes.map fun (mark, line) => .edge name mark .hasAttribute line)

def modifierTags (modifiers : String) : List String := (Text.words modifiers).map Text.lowerAscii

def typeStep (t : Document) (s : State) (keyword plain modifiers : String) (line : Nat) :
    State × List Fact :=
  let keyword := Text.lowerAscii keyword
  let isInterface := keyword = "interface"
  let name := qualify t.path (s.owner t.path) plain
  let tags := if ["module", "structure", "enum"].contains keyword then [keyword] else []
  let (s, facts) := declare t s (if isInterface then .interface else .type) name
    (modifierTags modifiers ++ tags) line
  (s.enter (.type name line s.declared isInterface), facts)

/-- The bases of the type that is open directly around. -/
def heritageFacts (s : State) (keyword list : String) (line : Nat) : List Fact :=
  match s.scopes with
  | .type name _ _ isInterface :: _ =>
    let kind :=
      if Text.sameIgnoringCase keyword "Implements" && !isInterface then RelationKind.implements
      else .inherits
    (listPieces list).flatMap fun base =>
      let target := TypeRef.baseName base
      if target.isEmpty then []
      else
        .edge name target kind (line + 1) ::
          (TypeRef.ofText .visualBasic base).arguments.map (Fact.edge name · .usesGeneric (line + 1))
  | _ => []

/-- The types that a parameter names; a constructor parameter is injected into its type. -/
def parameterFacts (owner name : String) (isConstructor : Bool) (line : Nat) (parameter : String) :
    List Fact :=
  match parameter? parameter with
  | none => []
  | some (parameter, type) =>
    let injection :=
      if !isConstructor then []
      else (TypeRef.ofText .visualBasic type).outer.toList.map fun target =>
        .inject owner target line [
          ("parameter", .str parameter), ("is_interface", .bool (TypeRef.isInterfaceName target))]
    typeFacts .visualBasic name type .acceptsType line ++ injection

/-- The parameters after the name of a method, and what follows them. Type parameters stand before
the parameters. -/
def parameterList (rest : String) : String × String :=
  let rest := Text.trimStart rest
  let rest :=
    match parenthesized? rest with
    | some (inner, tail) =>
      if Text.startsWith "of " (Text.lowerAscii (Text.trimStart inner)) then Text.trimStart tail
      else rest
    | none => rest
  (parenthesized? rest).getD ("", rest)

/-- Whether a method has no body: it is to be overridden, stands in a library or in an interface. -/
def hasNoBody (t : Document) (s : State) (modifiers : String) (line : Nat) : Bool :=
  Text.contains "mustoverride" (Text.lowerAscii modifiers) ||
    Text.contains "declare " (Text.lowerAscii (t.listing.codeAt line)) ||
    s.openType?.any (·.2)

/-- A method, which is open from here on unless it has no body. -/
def methodStep (t : Document) (s : State) (plain modifiers rest : String) (line : Nat) :
    State × List Fact :=
  let owner := s.owner t.path
  let isConstructor := Text.sameIgnoringCase plain "New"
  let name := qualify t.path owner plain
  let (parameters, tail) := parameterList rest
  let (after, facts) := declare t s .method name
    (modifierTags modifiers ++ (if isConstructor then ["constructor"] else [])) line
  let facts := facts ++
    (listPieces parameters).flatMap (parameterFacts owner name isConstructor (line + 1)) ++
    ((asClause? tail).map (typeFacts .visualBasic name · .returnsType (line + 1))).getD []
  (if hasNoBody t s modifiers line then after else after.enter (.member name line after.declared),
    facts)

/-- A property, which is open from here on if the next line of code is an accessor. -/
def propertyStep (t : Document) (s : State) (plain modifiers rest : String) (line : Nat) :
    State × List Fact :=
  let name := qualify t.path (s.owner t.path) plain
  let rest := ((parenthesized? (Text.trimStart rest)).map (·.2)).getD rest
  let (s, facts) := declare t s .property name (modifierTags modifiers) line
  let facts := facts ++
    ((asClause? rest).map (typeFacts .visualBasic name · .hasType (line + 1))).getD []
  let expanded := ((t.listing.code.drop (line + 1)).find? (!·.isEmpty)).any accessor.isMatch
  (if expanded then s.enter (.member name line s.declared) else s, facts)

def fieldStep (t : Document) (s : State) (plain type : String) (line : Nat) : State × List Fact :=
  let name := qualify t.path (s.owner t.path) plain
  let (s, facts) := declare t s .property name ["field"] line
  (s, facts ++ typeFacts .visualBasic name type .hasType (line + 1))

/-! ## Statements -/

def callFacts (statement member : String) (line : Nat) : List Fact :=
  ((Code.calls keywords statement).filter fun c =>
      (TypeRef.ofText .visualBasic c.callee).outer.isSome).map fun c =>
    .relate member c.callee .calls line (c.receiver.toList.map fun r => ("receiver", .str r))

def bodyFacts (statement member : String) (line : Nat) : List Fact :=
  ((throwNew.find? statement).toList.map fun m =>
      .edge member (TypeRef.baseName (m.group 1)) .throws line) ++
    ((catchHead.find? statement).toList.map fun m =>
      .edge member (TypeRef.baseName (m.group 1)) .catches line) ++
    ((construction.findAll statement).flatMap fun m =>
      typeFacts .visualBasic member (m.group 1) .uses line) ++
    callFacts statement member line

/-- Takes the attributes off the start of a statement, at most `fuel` blocks of them. -/
def takeAttributes : Nat → String → List String × String
  | 0, statement => ([], statement)
  | fuel + 1, statement =>
    match attributeBlock.find? statement with
    | none => ([], statement)
    | some m =>
      let names := (attributeName.findAll (m.group 1)).map fun n =>
        Text.withoutEnd "Attribute" (n.group 1)
      let (more, rest) := takeAttributes fuel (Text.drop m.stop statement)
      (names ++ more, rest)

/-- A statement outside of members, without attributes before it. -/
def outerStep (t : Document) (s : State) (statement : String) (line : Nat) : State × List Fact :=
  match importHead.find? statement with
  | some m => (s, [.edge t.path (m.group 1) .imports (line + 1)])
  | none =>
  match namespaceHead.find? statement with
  | some m => (s.enter (.namespace (m.group 1)), [])
  | none =>
  match typeHead.find? statement with
  | some m => typeStep t s (m.group 2) (m.group 3) (m.group 1) line
  | none =>
  match heritage.find? statement with
  | some m => (s, heritageFacts s (m.group 1) (m.group 2) line)
  | none =>
  match methodHead.find? statement with
  | some m => methodStep t s (m.group 3) (m.group 1) (Text.drop m.stop statement) line
  | none =>
  match propertyHead.find? statement with
  | some m => propertyStep t s (m.group 2) (m.group 1) (m.group 3) line
  | none =>
  match fieldHead.find? statement with
  | some m => if s.openType?.isSome then fieldStep t s (m.group 1) (m.group 2) line else (s, [])
  | none => (s, [])

/-- The end of a block. The end of a function without a name closes nothing else. -/
def endStep (t : Document) (s : State) (keyword : String) (line : Nat) : State × List Fact :=
  let isMember := ["sub", "function", "property"].contains (Text.lowerAscii keyword)
  if isMember && 0 < s.lambdas then ({ s with lambdas := s.lambdas - 1 }, [])
  else s.close t.listing line

def statementStep (t : Document) (s : State) (line : Nat) (statement : String) : State × List Fact :=
  if statement.isEmpty then (s, [])
  else
    match blockEnd.find? statement with
    | some m => endStep t s (m.group 1) line
    | none =>
      match s.scopes with
      | .member name _ _ :: _ =>
        (if openLambda.isMatch statement then { s with lambdas := s.lambdas + 1 } else s,
          bodyFacts statement name (line + 1))
      | _ =>
        let (names, rest) := takeAttributes statement.length statement
        let s := { s with attributes := s.attributes ++ names.map (·, line + 1) }
        if rest.isEmpty then (s, []) else outerStep t s rest line

/-- The statements of a source with their lines. Colons between blanks separate statements. -/
def statements (listing : Listing) : List (Nat × String) :=
  listing.code.zipIdx.flatMap fun (code, line) =>
    (Text.splitOn " : " code).map fun s => (line, Text.trim s)

def readAll (t : Document) (s : State) : List (Nat × String) → State × List Fact
  | [] => (s, [])
  | (line, statement) :: rest =>
    let (s, facts) := statementStep t s line statement
    let (s, more) := readAll t s rest
    (s, facts ++ more)

def facts (path text : String) : List Fact :=
  let t : Document := ⟨path, .ofText "'" text⟩
  let (s, facts) := readAll t {} (statements t.listing)
  facts ++ s.scopes.flatMap (State.closeFacts t.listing t.listing.last)

def survey (settings : Settings) (fs : FileSystem) (source : Source)
    (bank : Bank := Detect.VisualBasic.bank) : Report :=
  let place := source.place settings fs
  let report := Report.opening place source.content "VB.NET"
  if source.cancelled then report.fail (.cancelled source.path)
  else
    let report := report.recordAll place (facts source.path source.content)
    report.detect settings.detectors bank
      { filePath := source.path, context := place.context, source := source.content }

def frontend (settings : Settings) : Frontend where
  language := "VB.NET"
  extensions := ["vb"]
  capability := .basic
  survey fs source := .ok (survey settings fs source)

end CodeSurvey.VisualBasic
