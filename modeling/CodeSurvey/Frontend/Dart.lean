import CodeSurvey.Code.Calls
import CodeSurvey.Code.DocLines
import CodeSurvey.Code.Listing
import CodeSurvey.Detect.Dart
import CodeSurvey.Frontend.Basic
import CodeSurvey.Frontend.Facts

/-!
# Dart sources

A range of lines is cut into declarations by their shape, each reaching to the end of its block. The
range between the first and the last line of a type is cut in the same way. Fields come first, so
that constructor parameters that name a field know its type.
-/

namespace CodeSurvey.Dart

open Code (Listing)

/-! ## The shapes of declarations -/

section Shapes

open Regex

def dotted : Regex := all [set .nameStart, many (set (.anyOf [.word, .one '.']))]

def typeText : Regex := plusLazy (set (.anyOf [.word, .chars "<>?,.[] "]))

/-- Some of several words, each with blanks after it. -/
def wordsBefore (words : List String) : Regex := many (all [oneOf words, gap])

/-- An import or export; group 1 is its target. -/
def importHead : Regex :=
  all [
    start, oneOf ["import", "export"], gap, set (.chars "'\""),
    group 1 (plus (set (.notChars "'\""))), set (.chars "'\"")]

/-- An annotation; group 1 is its name. -/
def metadataMark : Regex :=
  all [
    start, lit "@", group 1 dotted,
    opt (all [blanks, lit "(", many (set (.notChars ")")), lit ")"]), blanks]

/-- The start of a type; its groups are modifiers, keyword, name and the rest. -/
def typeHead : Regex :=
  all [
    start, group 1 (wordsBefore ["abstract", "base", "final", "sealed", "interface", "mixin"]),
    group 2 (oneOf ["class", "mixin", "enum", "extension"]), edge, blanks, group 3 (many word),
    blanks, opt (all [lit "<", manyLazy (set (.notChars "\x7b")), lit ">"]),
    group 4 (many (set .notNewline)), stop]

/-- The start of a getter; its groups are type and name. -/
def getterHead : Regex :=
  all [
    start, wordsBefore ["static", "external", "abstract"], opt (all [group 1 typeText, gap]),
    lit "get", gap, group 2 (plus word)]

/-- The start of a method; its groups are modifiers, type and name. -/
def methodHead : Regex :=
  all [
    start, group 1 (wordsBefore ["static", "external", "abstract"]),
    opt (all [group 2 typeText, gap]),
    opt (any [all [lit "set", gap], all [lit "operator", blanks]]), group 3 (plus word), blanks,
    opt (all [lit "<", many (set (.notChars ">(")), lit ">"]), blanks, lit "("]

/-- A field; its groups are modifiers, type and name. -/
def fieldHead : Regex :=
  all [
    start,
    group 1 (wordsBefore ["static", "final", "const", "late", "var", "covariant", "external"]),
    opt (all [group 2 typeText, gap]), group 3 (plus word), blanks,
    opt (all [lit "=", many (set (.notChars ";"))]), lit ";"]

/-- A keyword that starts a clause of the heritage of a type. -/
def clauseHead : Regex := all [edge, oneOf ["extends", "with", "implements", "on"], blank]

/-- A throw of a new exception; group 1 is its type. -/
def throwNew : Regex :=
  all [
    edge, lit "throw", gap, opt (any [all [lit "new", gap], all [lit "const", gap]]),
    group 1 dotted, blanks, lit "("]

/-- A catch of an exception; group 1 is its type. -/
def catchHead : Regex :=
  all [edge, lit "on", gap, group 1 dotted, blanks, any [all [lit "catch", edge], lit "\x7b"]]

/-- The construction of an object; group 1 is its type. -/
def construction : Regex :=
  all [
    edge, lit "new", gap,
    group 1 (all [dotted, opt (all [lit "<", many (set (.notChars ">(")), lit ">"])]), blanks,
    lit "("]

end Shapes

def keywords : List String :=
  ["if", "for", "while", "switch", "catch", "return", "assert", "super", "this", "await", "throw",
    "new", "const", "print", "rethrow", "yield", "sizeof", "typeof"]

/-- Words that start a statement and neither name nor type a method. -/
def statementWords : List String := ["if", "for", "while", "switch", "catch", "return", "assert"]

/-! ## Parts of declarations -/

/-- Takes annotations off the start of a text, at most `fuel` of them. -/
def takeAnnotations : Nat → String → List String × String
  | 0, text => ([], text)
  | fuel + 1, text =>
    match metadataMark.find? text with
    | none => ([], text)
    | some m =>
      let (more, rest) := takeAnnotations fuel (Text.drop m.stop text)
      (m.group 1 :: more, rest)

/-- A line of code without annotations at its start. -/
def declarationText (l : Listing) (line : Nat) : String :=
  let code := l.codeAt line
  (takeAnnotations code.length code).2

/-- Takes words off the start of a text, at most `fuel` of them, with the blanks after them. -/
def dropWords (words : List String) : Nat → String → String
  | 0, text => text
  | fuel + 1, text =>
    match words.findSome? (Text.afterStart? · text) with
    | some rest => dropWords words fuel (Text.trimStart rest)
    | none => text

def constructorText (text : String) : String :=
  dropWords ["const ", "factory ", "external "] text.length text

def isConstructor (text type : String) : Bool :=
  (Text.afterStart? type (constructorText text)).any fun rest =>
    Text.startsWith "(" rest || (Text.startsWith "." rest && Text.contains "(" rest)

/-- The pieces between commas outside of brackets; `pending` is the piece being read. -/
def commaPieces (depth : Int) (pending : List Char) : List Char → List (List Char)
  | [] => [pending.reverse]
  | c :: cs =>
    if "<([\x7b".toList.contains c then commaPieces (depth + 1) (c :: pending) cs
    else if ">)]\x7d".toList.contains c then commaPieces (depth - 1) (c :: pending) cs
    else if c == ',' && depth == 0 then pending.reverse :: commaPieces depth [] cs
    else commaPieces depth (c :: pending) cs

/-- The trimmed pieces of a list with commas; a piece that is empty does not count at the end. -/
def listPieces (text : String) : List String :=
  let pieces := (commaPieces 0 [] text.toList).map fun p => Text.trim (String.ofList p)
  if pieces.getLast? = some "" then pieces.dropLast else pieces

/-- The types of the fields of a class by their names, latest first. -/
abbrev FieldTypes := List (String × String)

/-- The name and the type of a parameter. A parameter that names a field has its type; one passed on
to the class above has none. -/
def parameter? (fields : FieldTypes) (parameter : String) : Option (String × String) :=
  let parameter := Text.trim (Text.beforeFirst (· == '=') parameter)
  let parameter := dropWords ["required ", "covariant ", "final "] parameter.length parameter
  let parameter := Text.trim (metadataMark.eraseFirst parameter)
  match Text.afterStart? "this." parameter with
  | some field =>
    let field := Text.trim field
    (fields.lookup field).map (field, ·)
  | none =>
    if Text.startsWith "super." parameter then none
    else (Text.cutAtLast? Text.isBlank parameter).map fun (type, name) => (name, Text.trim type)

/-- The text from the end of each mark to the start of the next. -/
def clausesOf (text : String) : List Match → List (String × String)
  | [] => []
  | m :: rest =>
    let stop := (rest.head?.map (·.start)).getD text.length
    (Text.trim m.text, Text.trim (Text.drop m.stop (Text.take stop text))) :: clausesOf text rest

/-- The clauses of the heritage of a type, each with its keyword. -/
def heritageClauses (text : String) : List (String × String) :=
  let text := Text.beforeFirst (· == '\x7b') text
  clausesOf text (clauseHead.findAll text)

/-! ## Cutting a range of lines into declarations -/

/-- What a line declares. -/
inductive Shape where
  | imports (target : String)
  | type
  | constructor
  | getter
  | method
  | field
  deriving Repr, DecidableEq

/-- A declaration from its first to its last line, with the annotations before it. -/
structure Member where
  shape : Shape
  start : Nat
  stop : Nat
  annotations : List (String × Nat)
  deriving Repr, DecidableEq

/-- Whether a text starts a method and not a statement. -/
def isMethod (text : String) : Bool :=
  (methodHead.find? text).any fun m =>
    !statementWords.contains (m.group 3) && !(m.group? 2).any statementWords.contains

/-- What a line declares, given its text without annotations and the class around it. -/
def shapeOf? (raw text : String) (type : Option String) : Option Shape :=
  match importHead.find? (Text.trim raw) with
  | some m => some (.imports (m.group 1))
  | none =>
    if typeHead.isMatch text then some .type
    else if type.any (isConstructor text) then some .constructor
    else if getterHead.isMatch text then some .getter
    else if isMethod text then some .method
    else if type.isSome && fieldHead.isMatch text then some .field
    else none

/-- The last line of a declaration that starts on a line, kept within the range. -/
def lastLine (l : Listing) (shape : Option Shape) (line stop : Nat) : Nat :=
  match shape with
  | some (.imports _) => line
  | _ => max (min (Code.blockEnd l.code line) (stop - 1)) line

theorem le_lastLine (l : Listing) (shape : Option Shape) (line stop : Nat) :
    line ≤ lastLine l shape line stop := by
  unfold lastLine
  split
  · exact Nat.le_refl line
  · exact Nat.le_max_right _ _

theorem lastLine_lt (l : Listing) (shape : Option Shape) {line stop : Nat} (h : line < stop) :
    lastLine l shape line stop < stop := by
  unfold lastLine
  split
  · exact h
  · omega

/-- What is cut off at a line: a declaration or nothing, the line to go on with, and the annotations
that wait for their declaration. -/
structure Cut where
  member : Option Member
  next : Nat
  pending : List (String × Nat)

/-- The cut at a line that declares something of the given shape, if anything. -/
def cutAt (l : Listing) (shape : Option Shape) (stop start : Nat) (pending : List (String × Nat)) :
    Cut :=
  let last := lastLine l shape start stop
  ⟨shape.map fun shape => ⟨shape, start, last, pending⟩, last + 1, []⟩

theorem member_cutAt {l : Listing} {shape : Option Shape} {stop start : Nat}
    {pending : List (String × Nat)} {m : Member} (h : start < stop)
    (hm : (cutAt l shape stop start pending).member = some m) :
    m.start = start ∧ m.start ≤ m.stop ∧ m.stop < stop := by
  cases shape with
  | none => cases hm
  | some shape =>
    cases hm
    exact ⟨rfl, le_lastLine _ _ _ _, lastLine_lt _ _ h⟩

def cut (l : Listing) (type : Option String) (stop start : Nat) (pending : List (String × Nat)) :
    Cut :=
  let code := l.codeAt start
  let taken := takeAnnotations code.length code
  let pending := pending ++ taken.1.map (·, start + 1)
  if (Text.trim taken.2).isEmpty then ⟨none, start + 1, pending⟩
  else cutAt l (shapeOf? (l.rawAt start) taken.2 type) stop start pending

theorem lt_next_cut (l : Listing) (type : Option String) (stop start : Nat)
    (pending : List (String × Nat)) : start < (cut l type stop start pending).next := by
  simp only [cut]
  split
  · exact Nat.lt_succ_self start
  · exact Nat.lt_succ_of_le (le_lastLine _ _ _ _)

theorem member_cut {l : Listing} {type : Option String} {stop start : Nat}
    {pending : List (String × Nat)} {m : Member} (h : start < stop)
    (hm : (cut l type stop start pending).member = some m) :
    m.start = start ∧ m.start ≤ m.stop ∧ m.stop < stop := by
  simp only [cut] at hm
  split at hm
  · cases hm
  · exact member_cutAt h hm

/-- The declarations of the lines from `start` up to `stop`; `pending` are the annotations that wait
for their declaration. -/
def members (l : Listing) (type : Option String) (stop start : Nat) (pending : List (String × Nat)) :
    List Member :=
  if start < stop then
    let c := cut l type stop start pending
    c.member.toList ++ members l type stop c.next c.pending
  else []
termination_by stop - start
decreasing_by
  have := lt_next_cut l type stop start pending
  omega

/-- Declarations lie within the range that they are cut from. -/
theorem bounds_of_mem_members {l : Listing} {type : Option String} {stop start : Nat}
    {pending : List (String × Nat)} {m : Member} (hm : m ∈ members l type stop start pending) :
    start ≤ m.start ∧ m.start ≤ m.stop ∧ m.stop < stop := by
  fun_induction members l type stop start pending with
  | case1 start pending h c ih =>
    rcases List.mem_append.mp hm with hm | hm
    · obtain ⟨h₁, h₂, h₃⟩ := member_cut h (Option.mem_toList.mp hm)
      exact ⟨h₁ ▸ Nat.le_refl _, h₂, h₃⟩
    · obtain ⟨h₁, h₂, h₃⟩ := ih hm
      exact ⟨Nat.le_trans (Nat.le_of_lt (lt_next_cut l type stop start pending)) h₁, h₂, h₃⟩
  | case2 start pending h => cases hm

/-! ## Facts -/

structure Document where
  path : String
  listing : Listing
  deriving Repr

/-- States the declaration of a member and its annotations. -/
def declare (t : Document) (kind : ElementKind) (name : String) (m : Member) (owner : String)
    (tags : List String) : List Fact :=
  let d : Declaration := {
    kind, name
    content := t.listing.span m.start m.stop
    lineNumber := m.start + 1
    summary := (Code.docAfter "///" (t.listing.trimmed.take m.start)).getD ""
    signature := Text.trim (Text.trimEndWhere (· == '\x7b') (declarationText t.listing m.start))
    metadata := [("end_line", .nat (m.stop + 1))] }
  .declare owner (d.addTags tags) ::
    m.annotations.map fun (mark, line) => .edge name mark .hasAttribute line

/-- The kind of relation that a clause of the heritage states. -/
def clauseKind (keyword clause : String) : RelationKind :=
  if clause = "extends" then .inherits
  else if clause = "on" then (if keyword = "extension" then .uses else .inherits)
  else .implements

def clauseFacts (name keyword : String) (line : Nat) (clause list : String) : List Fact :=
  (listPieces list).flatMap fun base =>
    let target := TypeRef.baseName base
    if target.isEmpty then []
    else
      .relate name target (clauseKind keyword clause) line
          (if clause = "with" then [("mixin", .bool true)] else []) ::
        (TypeRef.ofText .dart base).arguments.map (Fact.edge name · .usesGeneric line)

/-- The name of a type; an extension may have none. -/
def typeName (t : Document) (owner : String) (head : Match) : String :=
  let plain := head.group 3
  qualify t.path owner (if plain = "" || plain = "on" then "extension" else plain)

/-- A type: its declaration and its bases. -/
def headFacts (t : Document) (owner : String) (m : Member) (head : Match) : List Fact :=
  let name := typeName t owner head
  let keyword := head.group 2
  let modifiers := Text.words (head.group 1)
  let isNameless := head.group 3 = "" || head.group 3 = "on"
  let heritage := if isNameless then "on " ++ head.group 4 else head.group 4
  declare t (if modifiers.contains "interface" then .interface else .type) name m owner
      (modifiers ++ (if keyword = "class" then [] else [keyword])) ++
    (heritageClauses heritage).flatMap fun (clause, list) =>
      clauseFacts name keyword (m.start + 1) clause list

/-- A field: what it states, and its type by its name if it has one. -/
def fieldFacts (t : Document) (owner : String) (m : Member) : List Fact × FieldTypes :=
  match fieldHead.find? (declarationText t.listing m.start) with
  | none => ([], [])
  | some head =>
    let plain := head.group 3
    let name := qualify t.path owner plain
    let facts := declare t .property name m owner (Text.words (head.group 1))
    match head.group? 2 with
    | none => (facts, [])
    | some type => (facts ++ typeFacts .dart name type .hasType (m.start + 1), [(plain, type)])

/-- The lines of a member as code, the first without annotations, each with an ending. -/
def memberCode (t : Document) (m : Member) (ending : String) : String :=
  let lines := declarationText t.listing m.start ::
    (t.listing.code.drop (m.start + 1)).take (m.stop - m.start)
  String.join (lines.map (· ++ ending))

def callFacts (line : String) (member : String) (number : Nat) : List Fact :=
  (Code.calls keywords line).flatMap fun c =>
    let first := (Text.trimStartWhere (· == '_') c.callee).toList.head?
    if c.receiver.isNone && first.any Char.isUpper then
      typeFacts .dart member c.callee .uses number
    else
      [.relate member c.callee .calls number (c.receiver.toList.map fun r => ("receiver", .str r))]

def lineFacts (member : String) (number : Nat) (line : String) : List Fact :=
  ((throwNew.find? line).toList.map fun m =>
      .edge member (TypeRef.baseName (m.group 1)) .throws number) ++
    ((catchHead.findAll line).map fun m => .edge member (m.group 1) .catches number) ++
    ((construction.findAll line).flatMap fun m =>
      typeFacts .dart member (m.group 1) .uses number) ++
    callFacts line member number

def bodyFacts (body member : String) (firstLine : Nat) : List Fact :=
  (Text.lines body).zipIdx.flatMap fun (line, i) => lineFacts member (firstLine + i) line

def getterFacts (t : Document) (owner : String) (m : Member) : List Fact :=
  let text := declarationText t.listing m.start
  match getterHead.find? text with
  | none => []
  | some head =>
    let name := qualify t.path owner (head.group 2)
    let body := Text.drop ((Text.find? "get" text).getD 0) (memberCode t m "\n")
    declare t .property name m owner ["getter"] ++
      ((head.group? 1).map (typeFacts .dart name · .hasType (m.start + 1))).getD [] ++
      bodyFacts body name (m.start + 1)

/-- Number of characters up to and with the parenthesis that closes the first one opened, all of
them if there is none; `count` characters were read before. -/
def signatureLength (depth : Int) (opened : Bool) (count : Nat) : List Char → Nat
  | [] => count
  | '(' :: cs => signatureLength (depth + 1) true (count + 1) cs
  | ')' :: cs =>
    if opened && depth - 1 == 0 then count + 1
    else signatureLength (depth - 1) opened (count + 1) cs
  | _ :: cs => signatureLength depth opened (count + 1) cs

/-- The types that a parameter names; a constructor parameter is injected into its class. -/
def parameterFacts (fields : FieldTypes) (owner name : String) (isConstructor : Bool) (line : Nat)
    (parameter : String) : List Fact :=
  match parameter? fields parameter with
  | none => []
  | some (parameter, type) =>
    let injection :=
      if !isConstructor then []
      else (TypeRef.ofText .dart type).outer.toList.map fun target =>
        .inject owner target line [("parameter", .str parameter)]
    typeFacts .dart name type .acceptsType line ++ injection

/-- A list of parameters without the brackets around named and optional ones. -/
def flatten (parameters : String) : String :=
  String.ofList (parameters.toList.map fun c => if "\x7b\x7d[]".toList.contains c then ' ' else c)

/-- Name, result type and modifiers of a method or constructor. -/
def methodParts? (text : String) (isConstructor : Bool) :
    Option (String × Option String × List String) :=
  if isConstructor then
    some (Text.trim (Text.beforeFirst (· == '(') (constructorText text)), none, [])
  else
    (methodHead.find? text).map fun m => (m.group 3, m.group? 2, Text.words (m.group 1))

def methodFacts (t : Document) (owner : String) (fields : FieldTypes) (isConstructor : Bool)
    (m : Member) : List Fact :=
  match methodParts? (declarationText t.listing m.start) isConstructor with
  | none => []
  | some (plain, returns, modifiers) =>
    let name := qualify t.path owner plain
    let line := m.start + 1
    let signature := memberCode t m " "
    let length := signatureLength 0 false 0 signature.toList
    let opened := ((Text.find? "(" signature).getD 0) + 1
    let parameters := flatten (Text.drop opened (Text.take (length - 1) signature))
    let body := Text.drop length (memberCode t m "\n")
    let tags := modifiers ++ (if isConstructor then ["constructor"] else []) ++
      (if owner = t.path then ["function"] else []) ++
      (if Text.startsWith "async" (Text.trimStart body) then ["async"] else [])
    declare t .method name m owner tags ++
      (listPieces parameters).flatMap (parameterFacts fields owner name isConstructor line) ++
      (returns.map (typeFacts .dart name · .returnsType line)).getD [] ++
      bodyFacts body name line

def classOf? (t : Document) (owner : String) : Option String :=
  if owner = t.path then none else some (Text.afterLast '.' owner)

/-- What a declaration other than a field or a type states. -/
def memberFacts (t : Document) (owner : String) (fields : FieldTypes) (m : Member) : List Fact :=
  match m.shape with
  | .imports target => [.edge t.path target .imports (m.start + 1)]
  | .constructor => methodFacts t owner fields true m
  | .getter => getterFacts t owner m
  | .method => methodFacts t owner fields false m
  | .type | .field => []

/-- What the lines from `start` up to `stop` state that an owner has: fields first, and then the
other declarations, each type with what it owns itself. -/
def rangeFacts (t : Document) (owner : String) (start stop : Nat) : List Fact :=
  let all := members t.listing (classOf? t owner) stop start []
  let fields := (all.filter (·.shape = .field)).map (fieldFacts t owner)
  let types := (fields.flatMap (·.2)).reverse
  fields.flatMap (·.1) ++ all.attach.flatMap fun m =>
    if m.1.shape = .type then
      match typeHead.find? (declarationText t.listing m.1.start) with
      | none => []
      | some head =>
        headFacts t owner m.1 head ++ rangeFacts t (typeName t owner head) (m.1.start + 1) m.1.stop
    else memberFacts t owner types m.1
termination_by stop - start
decreasing_by
  have := bounds_of_mem_members m.2
  omega

def facts (path text : String) : List Fact :=
  let t : Document := ⟨path, .ofText "//" text⟩
  rangeFacts t path 0 t.listing.code.length

def survey (settings : Settings) (fs : FileSystem) (source : Source)
    (bank : Bank := Detect.Dart.bank) : Report :=
  let place := source.place settings fs
  let report := Report.opening place source.content "Dart"
  if source.cancelled then report.fail (.cancelled source.path)
  else
    let report := report.recordAll place (facts source.path source.content)
    report.detect settings.detectors bank
      { filePath := source.path, context := place.context, source := source.content }

def frontend (settings : Settings) : Frontend where
  language := "Dart"
  extensions := ["dart"]
  capability := .basic
  survey fs source := .ok (survey settings fs source)

end CodeSurvey.Dart
