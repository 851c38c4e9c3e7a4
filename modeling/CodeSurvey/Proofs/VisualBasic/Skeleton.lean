import CodeSurvey.Proofs.VisualBasic.Heads
import CodeSurvey.Proofs.VisualBasic.Nesting

/-!
# Skeletons of Visual Basic sources

A skeleton is a tree of namespaces, types and members, printed with one line for the head and one
for the end of each block. Reading the printed lines gives back the outlines of its types and members
from top to bottom. The proof follows the tree: the lines of a block open a scope, what is inside
leaves the scopes as it found them, and the end of the block completes the outline that its head has
drawn.
-/

namespace CodeSurvey.VisualBasic

open Code (Listing)

/-! ## Skeletons -/

/-- A line in the body of a member none of whose statements ends a block or opens a function without
a name. -/
structure BodyLine where
  text : String
  plain : ∀ statement ∈ statementsOn text,
    blockEnd.find? statement = none ∧ openLambda.isMatch statement = false

/-- Blocks that follow one another, each with what is inside it. The margins are the indentations of
the head and of the end. -/
inductive Skeleton where
  | done
  | space (head foot : Margin) (name : Identifier) (inner rest : Skeleton)
  | type (word : TypeWord) (head foot : Margin) (name : Identifier) (inner rest : Skeleton)
  | member (word : MemberWord) (head foot : Margin) (name : Identifier) (body : List BodyLine)
      (rest : Skeleton)

def blockLines (head foot : Margin) (headText word : String) (inner : List String) : List String :=
  (head.text ++ headText) :: (inner ++ [foot.text ++ ("End " ++ word)])

/-- Names with dots between them. -/
def dottedName (names : List String) : String := String.intercalate "." names

/-- The outline of a block whose own lines stand after `line` others. -/
def blockOutline (kind : ElementKind) (name : String) (scope : Option Json) (line : Nat)
    (own : List String) : Outline where
  kind := kind
  name := name
  firstLine := line + 1
  lastLine := some (.nat (line + own.length))
  content := Text.joinLines own
  scope := scope

namespace Skeleton

def lines : Skeleton → List String
  | done => []
  | space head foot name inner rest =>
    blockLines head foot (spaceHead name) "Namespace" inner.lines ++ rest.lines
  | type word head foot name inner rest =>
    blockLines head foot (word.head name) word.text inner.lines ++ rest.lines
  | member word head foot name body rest =>
    blockLines head foot (word.head name) word.text (body.map BodyLine.text) ++ rest.lines

/-- The outlines of the types and members inside given types and namespaces, from top to bottom,
where `line` lines stand before. A type or member is named after the types around it and itself. -/
def outlines (nameOf : List String → String) (types spaces : List String) (line : Nat) :
    Skeleton → List Outline
  | done => []
  | space head foot name inner rest =>
    let own := blockLines head foot (spaceHead name) "Namespace" inner.lines
    inner.outlines nameOf types (spaces ++ [name.text]) (line + 1) ++
      rest.outlines nameOf types spaces (line + own.length)
  | type word head foot name inner rest =>
    let own := blockLines head foot (word.head name) word.text inner.lines
    let scope := if spaces = [] then none else some (.str (dottedName spaces))
    blockOutline .type (nameOf (types ++ [name.text])) scope line own ::
      inner.outlines nameOf (types ++ [name.text]) spaces (line + 1) ++
      rest.outlines nameOf types spaces (line + own.length)
  | member word head foot name body rest =>
    let own := blockLines head foot (word.head name) word.text (body.map BodyLine.text)
    blockOutline .method (nameOf (types ++ [name.text])) none line own ::
      rest.outlines nameOf types spaces (line + own.length)

/-- The dotted names of the types that own another type or a member. -/
def owners (types : List String) : Skeleton → List String
  | done => []
  | space _ _ _ inner rest => inner.owners types ++ rest.owners types
  | type _ _ _ name inner rest =>
    (if types = [] then [] else [dottedName types]) ++
      (inner.owners (types ++ [name.text]) ++ rest.owners types)
  | member _ _ _ _ _ rest =>
    (if types = [] then [] else [dottedName types]) ++ rest.owners types

end Skeleton

/-! ## The statements of lines -/

/-- The statements of lines that follow one another from a line on. -/
def statementsFrom (line : Nat) (lines : List String) : List (Nat × String) :=
  (lines.zipIdx line).flatMap fun (l, i) => (statementsOn l).map (i, ·)

theorem statements_ofText (text : String) :
    statements (.ofText "'" text) = statementsFrom 0 (Text.lines text) := by
  have hcode : (Listing.ofText "'" text).code = (Text.lines text).map codeOf := rfl
  have hline (p : String × Nat) :
      (Text.splitOn " : " (codeOf p.1)).map (fun s => (p.2, Text.trim s)) =
        (statementsOn p.1).map (p.2, ·) := by
    rw [statementsOn, List.map_map]
    rfl
  rw [statements, hcode, List.zipIdx_map, List.flatMap_map, statementsFrom]
  simp only [Prod.map_fst, Prod.map_snd, id_eq, hline]

@[simp] theorem statementsFrom_nil (line : Nat) : statementsFrom line [] = [] := rfl

theorem statementsFrom_cons (line : Nat) (l : String) (ls : List String) :
    statementsFrom line (l :: ls) =
      (statementsOn l).map (line, ·) ++ statementsFrom (line + 1) ls := rfl

theorem statementsFrom_append (line : Nat) (ls more : List String) :
    statementsFrom line (ls ++ more) =
      statementsFrom line ls ++ statementsFrom (line + ls.length) more := by
  simp [statementsFrom, List.zipIdx_append, List.flatMap_append]

/-- The statements of a block: head, what is inside, end. -/
theorem statementsFrom_block (line : Nat) (head foot : Margin) {headText word : String}
    (hhead : Plain headText) (hword : word ∈ headWords) (inner : List String) :
    statementsFrom line (blockLines head foot headText word inner) =
      (line, headText) ::
        (statementsFrom (line + 1) inner ++ [(line + (inner.length + 1), "End " ++ word)]) := by
  rw [blockLines, statementsFrom_cons, statementsOn_indented head hhead, statementsFrom_append,
    statementsFrom_cons, statementsOn_indented foot (plain_foot hword)]
  simp only [List.map_singleton, List.singleton_append, statementsFrom_nil]
  congr 4
  omega

/-! ## Reading blocks -/

theorem readAll_append (t : Document) (s : State) (xs ys : List (Nat × String)) :
    readAll t s (xs ++ ys) =
      ((readAll t (readAll t s xs).1 ys).1,
        (readAll t s xs).2 ++ (readAll t (readAll t s xs).1 ys).2) := by
  induction xs generalizing s with
  | nil => rfl
  | cons x xs ih => simp only [List.cons_append, readAll, ih, List.append_assoc]

/-- A step declares something and opens its scope. -/
structure Opens (s : State) (step : State × List Fact) (scope : Scope) (o : Outline) : Prop where
  scopes_eq : step.1.scopes = scope :: s.scopes
  lambdas_eq : step.1.lambdas = s.lambdas
  declared_eq : step.1.declared = s.declared + 1
  redraw_eq : ∀ outlines, redrawAll outlines step.2 = outlines ++ [o]

/-- Steps add outlines and come back to the scopes they started from. -/
structure Adds (s : State) (steps : State × List Fact) (new : List Outline) : Prop where
  scopes_eq : steps.1.scopes = s.scopes
  lambdas_eq : steps.1.lambdas = s.lambdas
  declared_eq : steps.1.declared = s.declared + new.length
  redraw_eq : ∀ outlines : List Outline, outlines.length = s.declared + 1 →
    redrawAll outlines steps.2 = outlines ++ new

section Blocks

variable {t : Document} {s : State}

theorem Adds.append {xs ys : List (Nat × String)} {new more : List Outline}
    (hxs : Adds s (readAll t s xs) new)
    (hys : Adds (readAll t s xs).1 (readAll t (readAll t s xs).1 ys) more) :
    Adds s (readAll t s (xs ++ ys)) (new ++ more) := by
  rw [readAll_append]
  constructor
  · exact hys.scopes_eq.trans hxs.scopes_eq
  · exact hys.lambdas_eq.trans hxs.lambdas_eq
  · rw [hys.declared_eq, hxs.declared_eq, List.length_append]
    omega
  · intro outlines hlength
    rw [redrawAll_append, hxs.redraw_eq outlines hlength, hys.redraw_eq]
    · rw [List.append_assoc]
    · rw [List.length_append, hlength, hxs.declared_eq]
      omega

theorem modify_append_cons {α : Type} (xs : List α) (x : α) (ys : List α) (f : α → α) :
    (xs ++ x :: ys).modify xs.length f = xs ++ f x :: ys := by
  induction xs with
  | nil => rfl
  | cons y xs ih => simp [ih]

theorem readAll_block (line stop : Nat) (head foot : String) (stmts : List (Nat × String)) :
    readAll t s ((line, head) :: (stmts ++ [(stop, foot)])) =
      let opened := statementStep t s line head
      let filled := readAll t opened.1 stmts
      let closed := statementStep t filled.1 stop foot
      (closed.1, opened.2 ++ (filled.2 ++ closed.2)) := by
  simp only [readAll, readAll_append, List.append_nil]

/-- The end of a block on a line takes off the innermost scope. -/
theorem statementStep_foot (stop : Nat) {word : String} {scope : Scope} {rest : List Scope}
    (hword : word ∈ headWords) (hlambdas : s.lambdas = 0) (hscopes : s.scopes = scope :: rest) :
    statementStep t s stop ("End " ++ word) =
      ({ s with scopes := rest }, State.closeFacts t.listing stop scope) := by
  rw [statementStep_end hword hlambdas, State.close, hscopes]

/-- The lines of a namespace add what is inside. -/
theorem Adds.space {stmts : List (Nat × String)} {line stop : Nat} {name : Identifier}
    {new : List Outline} (hs : s.Outside) (hlambdas : s.lambdas = 0)
    (hinner : Adds (s.enter (.namespace name.text))
      (VisualBasic.readAll t (s.enter (.namespace name.text)) stmts) new) :
    Adds s (VisualBasic.readAll t s
      ((line, spaceHead name) :: (stmts ++ [(stop, "End " ++ "Namespace")]))) new := by
  have hfoot := statementStep_foot (t := t) stop (show "Namespace" ∈ headWords by decide)
    (hinner.lambdas_eq.trans hlambdas) hinner.scopes_eq
  rw [readAll_block, statementStep_spaceHead name hs]
  dsimp only
  rw [hfoot]
  refine ⟨rfl, hinner.lambdas_eq, hinner.declared_eq, ?_⟩
  intro outlines hlength
  rw [List.nil_append, redrawAll_append, hinner.redraw_eq outlines hlength]
  rfl

/-- The lines of a block add the outline of its element, which its head has drawn and its end
completes, and what is inside. -/
theorem Adds.block {stmts : List (Nat × String)} {line stop : Nat} {head word : String}
    {scope : Scope} {o : Outline} {new : List Outline}
    (hopens : Opens s (statementStep t s line head) scope o)
    (hblock : scope.block? = some ⟨line, s.declared + 1⟩) (hlambdas : s.lambdas = 0)
    (hinner : Adds (statementStep t s line head).1
      (VisualBasic.readAll t (statementStep t s line head).1 stmts) new)
    (hword : word ∈ headWords) (hline : line ≤ stop) (hstop : stop ≤ t.listing.last) :
    Adds s (VisualBasic.readAll t s ((line, head) :: (stmts ++ [(stop, "End " ++ word)])))
      (o.close (t.listing.span line stop) (stop + 1) :: new) := by
  have hfoot := statementStep_foot (t := t) stop hword
    ((hinner.lambdas_eq.trans hopens.lambdas_eq).trans hlambdas)
    (hinner.scopes_eq.trans hopens.scopes_eq)
  rw [readAll_block]
  dsimp only
  rw [hfoot, closeFacts_eq, hblock]
  refine ⟨rfl, hinner.lambdas_eq.trans hopens.lambdas_eq, ?_, ?_⟩
  · rw [hinner.declared_eq, hopens.declared_eq, List.length_cons]
    omega
  · intro outlines hlength
    have hdrawn : (outlines ++ [o]).length = (statementStep t s line head).1.declared + 1 := by
      rw [List.length_append, hlength, hopens.declared_eq, List.length_singleton]
    rw [redrawAll_append, hopens.redraw_eq, redrawAll_append, hinner.redraw_eq _ hdrawn]
    simp only [Option.toList_some, List.map_singleton, redrawAll_cons, redrawAll_nil,
      Block.closeFact, Fact.redraw, Nat.min_eq_left hstop, Nat.max_eq_left hline, ← hlength]
    rw [List.append_assoc, List.singleton_append, modify_append_cons]

/-- Statements of the body of a member that end no block and open no function without a name leave the
state as it is. -/
theorem readAll_body {name : String} {start position : Nat} {rest : List Scope}
    (hscopes : s.scopes = .member name start position :: rest) (stmts : List (Nat × String))
    (hplain : ∀ st ∈ stmts, blockEnd.find? st.2 = none ∧ openLambda.isMatch st.2 = false) :
    ∃ facts, readAll t s stmts = (s, facts) ∧ AllQuiet facts := by
  induction stmts with
  | nil => exact ⟨[], rfl, AllFacts.nil⟩
  | cons st stmts ih =>
    obtain ⟨⟨hend, hlambda⟩, hstmts⟩ := List.forall_mem_cons.mp hplain
    obtain ⟨facts, hstep, hquiet⟩ : ∃ facts, statementStep t s st.1 st.2 = (s, facts) ∧
        AllQuiet facts := statementStep_body hscopes hend hlambda
    obtain ⟨more, hmore, hquiet'⟩ := ih hstmts
    refine ⟨facts ++ more, ?_, by simp [hquiet, hquiet']⟩
    rw [readAll, hstep]
    dsimp only
    rw [hmore]

/-- The lines of a body add nothing. -/
theorem adds_body {name : String} {start position : Nat} {rest : List Scope}
    (hscopes : s.scopes = .member name start position :: rest) (line : Nat) (body : List BodyLine) :
    Adds s (readAll t s (statementsFrom line (body.map BodyLine.text))) [] := by
  have hplain : ∀ st ∈ statementsFrom line (body.map BodyLine.text),
      blockEnd.find? st.2 = none ∧ openLambda.isMatch st.2 = false := by
    intro st hst
    obtain ⟨p, hp, hst⟩ := List.mem_flatMap.mp hst
    obtain ⟨statement, hstatement, rfl⟩ := List.mem_map.mp hst
    obtain ⟨l, -, hl⟩ := List.mem_map.mp (List.fst_mem_of_mem_zipIdx hp)
    rw [← hl] at hstatement
    exact l.plain statement hstatement
  obtain ⟨facts, hfacts, hquiet⟩ := readAll_body (t := t) hscopes _ hplain
  rw [hfacts]
  refine ⟨rfl, rfl, rfl, ?_⟩
  intro outlines _
  rw [hquiet.redrawAll_eq, List.append_nil]

/-! ## Heads of types and members -/

/-- A declaration with regular facts after it draws the outline of its head. -/
theorem redrawAll_declare (kind : ElementKind) (name : String) (tags : List String) (line : Nat)
    {more : List Fact} (hmore : Regular [s.owner t.path] more) (outlines : List Outline) :
    redrawAll outlines ((declare t s kind name tags line).2 ++ more) =
      outlines ++ [headOutline t s kind name line] := by
  obtain ⟨d, marks, hfacts, houtline, -, hmarks⟩ := declare_facts t s kind name tags line
  rw [hfacts, List.cons_append, redrawAll_cons, redrawAll_append, hmarks.quiet.redrawAll_eq,
    hmore.quiet.redrawAll_eq, Fact.redraw, houtline]

theorem opens_typeStep (word : TypeWord) (plain : String) (line : Nat) :
    let name := qualify t.path (s.owner t.path) plain
    Opens s (typeStep t s word.text plain "" line) (.type name line (s.declared + 1) false)
      (headOutline t s .type name line) := by
  have hinterface : Text.lowerAscii word.text ≠ "interface" := by cases word <;> decide
  intro name
  simp only [typeStep, hinterface, if_false, decide_false]
  refine ⟨rfl, rfl, rfl, ?_⟩
  intro outlines
  rw [← redrawAll_declare .type name _ line AllFacts.nil, List.append_nil]

theorem opens_methodStep (plain rest : String) {modifiers : String} {line : Nat}
    (hbody : hasNoBody t s modifiers line = false) :
    let name := qualify t.path (s.owner t.path) plain
    Opens s (methodStep t s plain modifiers rest line) (.member name line (s.declared + 1))
      (headOutline t s .method name line) := by
  intro name
  simp only [methodStep, hbody, List.append_assoc]
  refine ⟨rfl, rfl, rfl, ?_⟩
  intro outlines
  exact redrawAll_declare .method name _ line (by simp) outlines

end Blocks

/-! ## Scopes around a line -/

def Scope.spaceName? : Scope → Option String
  | «namespace» name => some name
  | _ => none

/-- The open scopes are types and namespaces with these plain names, outermost first. -/
structure Within (path : String) (types spaces : List String) (s : State) : Prop where
  outside : s.Outside
  openType_eq : s.openType? =
    if types = [] then none else some (types.foldl (qualify path) path, false)
  spaces_eq : s.scopes.reverse.filterMap Scope.spaceName? = spaces

namespace Within

variable {path : String} {types spaces : List String} {s s' : State}

theorem of_scopes (h : Within path types spaces s) (hscopes : s'.scopes = s.scopes) :
    Within path types spaces s' := by
  obtain ⟨houtside, htype, hspaces⟩ := h
  constructor
  · unfold State.Outside
    rw [hscopes]
    exact houtside
  · rw [← htype, State.openType?, State.openType?, hscopes]
  · rw [hscopes, hspaces]

theorem owner_eq (h : Within path types spaces s) :
    s.owner path = types.foldl (qualify path) path := by
  rw [State.owner, h.openType_eq]
  by_cases htypes : types = []
  · simp [htypes]
  · simp [htypes]

theorem namespace_eq (h : Within path types spaces s) :
    s.namespace? = if spaces = [] then none else some (dottedName spaces) := by
  have hnames : s.namespace? = if (s.scopes.reverse.filterMap Scope.spaceName?).isEmpty then none
      else some (dottedName (s.scopes.reverse.filterMap Scope.spaceName?)) := rfl
  rw [hnames, h.spaces_eq]
  simp only [List.isEmpty_iff]

theorem enterSpace (h : Within path types spaces s) (name : String) :
    Within path types (spaces ++ [name]) (s.enter (.namespace name)) where
  outside := by simp [State.Outside, State.enter]
  openType_eq := h.openType_eq
  spaces_eq := by simp [State.enter, Scope.spaceName?, h.spaces_eq]

theorem enterType (h : Within path types spaces s) {name : String} {start position : Nat}
    (hscopes : s'.scopes =
      .type (qualify path (s.owner path) name) start position false :: s.scopes) :
    Within path (types ++ [name]) spaces s' where
  outside := by simp [State.Outside, hscopes]
  openType_eq := by simp [State.openType?, hscopes, h.owner_eq, List.foldl_append]
  spaces_eq := by simp [hscopes, Scope.spaceName?, h.spaces_eq]

end Within

/-! ## Reading skeletons -/

section Reading

variable {t : Document} {s : State} {line : Nat} {tail : List String}

theorem codeAt_of_drop {l : String} (hcode : t.listing.code = t.listing.raw.map codeOf)
    (hraw : t.listing.raw.drop line = l :: tail) : t.listing.codeAt line = codeOf l := by
  simp [Listing.codeAt, hcode, getElem?_of_drop hraw]

/-- A head does not declare something of a library: the only blank of the head stands after its
word. -/
theorem MemberWord.not_contains_declare (word : MemberWord) (name : Identifier) :
    Text.contains "declare " (Text.lowerAscii (word.head name)) = false := by
  have hchars : (Text.lowerAscii (word.head name)).toList = word.text.toList.map Char.toLower ++
      ([' '] ++ (name.text.toList.map Char.toLower ++ ['(', ')'])) := by
    simp [Text.lowerAscii, MemberWord.head]
  have hword : 'd' ∉ word.text.toList.map Char.toLower := by cases word <;> decide
  have hspace : 'd' ∉ [' '] := by decide
  rw [← Bool.not_eq_true, Text.contains_iff_occurs, Text.Occurs, hchars]
  change ¬ ('d' :: "eclare ".toList) <:+: _
  rw [Text.infix_append_iff_of_not_mem hword, Text.infix_append_iff_of_not_mem hspace]
  intro hinfix
  have hblank : ' ' ∈ name.text.toList.map Char.toLower ++ ['(', ')'] := hinfix.subset (by decide)
  rcases List.mem_append.mp hblank with hmem | hmem
  · obtain ⟨c, hc, hlower⟩ := List.mem_map.mp hmem
    have hsame : (c == ' ') = true := by
      rw [← Text.toLower_beq (by decide) c, hlower]
      rfl
    have hbare := (name.bare_of_mem hc).1
    rw [beq_iff_eq.mp hsame] at hbare
    exact absurd hbare (by decide)
  · exact absurd hmem (by decide)

theorem hasNoBody_eq_false {types spaces : List String} {margin : Margin} {word : MemberWord}
    {name : Identifier} (hcode : t.listing.code = t.listing.raw.map codeOf)
    (hwithin : Within t.path types spaces s)
    (hraw : t.listing.raw.drop line = (margin.text ++ word.head name) :: tail) :
    hasNoBody t s "" line = false := by
  have hmodifier : Text.contains "mustoverride" (Text.lowerAscii "") = false := by decide
  have hlibrary : Text.contains "declare " (Text.lowerAscii (t.listing.codeAt line)) = false := by
    rw [codeAt_of_drop hcode hraw, codeOf_indented margin (word.plain_head name)]
    exact word.not_contains_declare name
  have htype : s.openType?.any (·.2) = false := by
    rw [hwithin.openType_eq]
    split <;> rfl
  rw [hasNoBody, hmodifier, hlibrary, htype]
  rfl

/-- The end of a block makes the outline of the block from that of its head. -/
theorem headOutline_close {types spaces : List String} (hwithin : Within t.path types spaces s)
    (kind : ElementKind) (plain : String) (line : Nat) (own : List String) :
    (headOutline t s kind (qualify t.path (s.owner t.path) plain) line).close
        (Text.joinLines own) (line + own.length) =
      blockOutline kind ((types ++ [plain]).foldl (qualify t.path) t.path)
        (if kind = .method ∨ spaces = [] then none else some (.str (dottedName spaces)))
        line own := by
  rw [List.foldl_append, ← hwithin.owner_eq]
  simp only [headOutline, hwithin.namespace_eq, Outline.close, blockOutline]
  by_cases hkind : kind = .method
  · simp [hkind]
  · by_cases hspaces : spaces = []
    · simp [hspaces]
    · simp [hkind, hspaces]

/-- The lines of a block whose head opens a scope add the outline of the block and those of what is
inside. -/
theorem adds_block {types spaces inner : List String} {kind : ElementKind} {scope : Scope}
    {head foot : Margin} {headText word plain : String} {new : List Outline}
    (hwithin : Within t.path types spaces s) (hlambdas : s.lambdas = 0) (hhead : Plain headText)
    (hword : word ∈ headWords)
    (hraw : t.listing.raw.drop line = blockLines head foot headText word inner ++ tail)
    (hopens : Opens s (statementStep t s line headText) scope
      (headOutline t s kind (qualify t.path (s.owner t.path) plain) line))
    (hblock : scope.block? = some ⟨line, s.declared + 1⟩)
    (hinner : Adds (statementStep t s line headText).1
      (readAll t (statementStep t s line headText).1 (statementsFrom (line + 1) inner)) new) :
    Adds s (readAll t s (statementsFrom line (blockLines head foot headText word inner)))
      (blockOutline kind ((types ++ [plain]).foldl (qualify t.path) t.path)
        (if kind = .method ∨ spaces = [] then none else some (.str (dottedName spaces))) line
        (blockLines head foot headText word inner) :: new) := by
  have hown : (blockLines head foot headText word inner).length = inner.length + 1 + 1 := by
    simp [blockLines]
  have hspan : t.listing.span line (line + (inner.length + 1)) =
      Text.joinLines (blockLines head foot headText word inner) := by
    have hcount : line + (inner.length + 1) + 1 - line =
        (blockLines head foot headText word inner).length := by omega
    rw [Listing.span, hcount, hraw, List.take_left]
  have hlast : line + (inner.length + 1) ≤ t.listing.last := by
    have hlength := congrArg List.length hraw
    rw [List.length_drop, List.length_append] at hlength
    unfold Listing.last
    omega
  have hadds := Adds.block hopens hblock hlambdas hinner hword (Nat.le_add_right _ _) hlast
  rwa [hspan, Nat.add_assoc, ← hown, headOutline_close hwithin,
    ← statementsFrom_block line head foot hhead hword inner] at hadds

/-- What follows a block is read in a state with the same scopes. -/
theorem Adds.followed {types spaces own lines : List String} {new more : List Outline}
    (hwithin : Within t.path types spaces s) (hlambdas : s.lambdas = 0)
    (hown : Adds s (VisualBasic.readAll t s (statementsFrom line own)) new)
    (hrest : ∀ s' : State, Within t.path types spaces s' → s'.lambdas = 0 →
      Adds s' (VisualBasic.readAll t s' (statementsFrom (line + own.length) lines)) more) :
    Adds s (VisualBasic.readAll t s (statementsFrom line (own ++ lines))) (new ++ more) := by
  rw [statementsFrom_append]
  exact hown.append (hrest _ (hwithin.of_scopes hown.scopes_eq) (hown.lambdas_eq.trans hlambdas))

theorem drop_of_drop {lines xs ys : List String} (h : lines.drop line = xs ++ ys) :
    lines.drop (line + xs.length) = ys := by
  rw [← List.drop_drop, h, List.drop_left]

/-- What is inside a block stands after its head. -/
theorem drop_inside {lines inner : List String} {head foot : Margin} {headText word : String}
    (h : lines.drop line = blockLines head foot headText word inner ++ tail) :
    lines.drop (line + 1) = inner ++ ((foot.text ++ ("End " ++ word)) :: tail) := by
  rw [← List.drop_drop, h, blockLines, List.cons_append, List.drop_one, List.tail_cons,
    List.append_assoc, List.singleton_append]

/-- Reading the lines of a skeleton gives its outlines. The names are made from the path of the file
and the names around, as the reader makes them. -/
theorem adds_skeleton (hcode : t.listing.code = t.listing.raw.map codeOf) (skeleton : Skeleton)
    {types spaces : List String} (hwithin : Within t.path types spaces s) (hlambdas : s.lambdas = 0)
    (hraw : t.listing.raw.drop line = skeleton.lines ++ tail) :
    Adds s (readAll t s (statementsFrom line skeleton.lines))
      (skeleton.outlines (List.foldl (qualify t.path) t.path) types spaces line) := by
  induction skeleton generalizing s line tail types spaces with
  | done => exact ⟨rfl, rfl, rfl, fun outlines _ => (List.append_nil outlines).symm⟩
  | space head foot name inner rest ihInner ihRest =>
    rw [Skeleton.lines, List.append_assoc] at hraw
    refine Adds.followed hwithin hlambdas ?_ fun s' hs' hlambdas' =>
      ihRest hs' hlambdas' (drop_of_drop hraw)
    rw [statementsFrom_block line head foot (plain_spaceHead name) (by decide) inner.lines]
    refine Adds.space hwithin.outside hlambdas ?_
    exact ihInner (hwithin.enterSpace name.text) hlambdas (drop_inside hraw)
  | type word head foot name inner rest ihInner ihRest =>
    rw [Skeleton.lines, List.append_assoc] at hraw
    have hopens := opens_typeStep (t := t) (s := s) word name.text line
    rw [← statementStep_typeHead word name hwithin.outside] at hopens
    have hinner := ihInner (hwithin.enterType hopens.scopes_eq)
      (hopens.lambdas_eq.trans hlambdas) (drop_inside hraw)
    have hown := adds_block hwithin hlambdas (word.plain_head name) word.mem_headWords hraw hopens
      rfl hinner
    simp only [reduceCtorEq, false_or] at hown
    exact Adds.followed hwithin hlambdas hown fun s' hs' hlambdas' =>
      ihRest hs' hlambdas' (drop_of_drop hraw)
  | member word head foot name body rest ihRest =>
    rw [Skeleton.lines, List.append_assoc] at hraw
    have hbody : hasNoBody t s "" line = false := hasNoBody_eq_false hcode hwithin hraw
    obtain ⟨parameters, hstep⟩ : ∃ rest, statementStep t s line (word.head name) =
        methodStep t s name.text "" rest line := statementStep_memberHead word name hwithin.outside
    have hopens := opens_methodStep name.text parameters hbody
    rw [← hstep] at hopens
    have hinner := adds_body (t := t) hopens.scopes_eq (line + 1) body
    have hown := adds_block hwithin hlambdas (word.plain_head name) word.mem_headWords hraw hopens
      rfl hinner
    simp only [true_or, if_true] at hown
    exact Adds.followed hwithin hlambdas hown fun s' hs' hlambdas' =>
      ihRest hs' hlambdas' (drop_of_drop hraw)

end Reading

/-! ## Dotted names -/

section Names

variable {path : String} {types spaces : List String}

theorem dottedName_concat (name : String) (h : types ≠ []) :
    dottedName (types ++ [name]) = dottedName types ++ "." ++ name := by
  rw [dottedName, String.intercalate_append_of_ne_nil h (List.cons_ne_nil _ _),
    String.intercalate_singleton, dottedName]

/-- The reader names what a type owns after that type, unless it takes the type for the file. -/
theorem foldl_qualify_concat (name : String)
    (hnamed : types = [] ∨ types.foldl (qualify path) path = dottedName types)
    (howner : types = [] ∨ dottedName types ≠ path) :
    (types ++ [name]).foldl (qualify path) path = dottedName (types ++ [name]) := by
  rw [List.foldl_append]
  by_cases htypes : types = []
  · simp [htypes, qualify, dottedName]
  · rw [hnamed.resolve_left htypes, dottedName_concat name htypes]
    exact if_neg (howner.resolve_left htypes)

theorem owner_ne {more : List String}
    (h : path ∉ (if types = [] then [] else [dottedName types]) ++ more) :
    types = [] ∨ dottedName types ≠ path := by
  by_cases htypes : types = []
  · exact .inl htypes
  · right
    rintro rfl
    simp [htypes] at h

/-- Where the path is no name of a type that owns something, the names are the dotted ones. -/
theorem Skeleton.outlines_dotted (skeleton : Skeleton) {line : Nat}
    (hpath : path ∉ skeleton.owners types)
    (hnamed : types = [] ∨ types.foldl (qualify path) path = dottedName types) :
    skeleton.outlines (List.foldl (qualify path) path) types spaces line =
      skeleton.outlines dottedName types spaces line := by
  induction skeleton generalizing types spaces line with
  | done => rfl
  | space head foot name inner rest ihInner ihRest =>
    rw [owners, List.mem_append, not_or] at hpath
    simp only [outlines]
    rw [ihInner hpath.1 hnamed, ihRest hpath.2 hnamed]
  | type word head foot name inner rest ihInner ihRest =>
    have hname := foldl_qualify_concat name.text hnamed (owner_ne hpath)
    rw [owners, List.mem_append, List.mem_append, not_or, not_or] at hpath
    simp only [outlines]
    rw [hname, ihInner hpath.2.1 (.inr hname), ihRest hpath.2.2 hnamed]
  | member word head foot name body rest ihRest =>
    have hname := foldl_qualify_concat name.text hnamed (owner_ne hpath)
    rw [owners, List.mem_append, not_or] at hpath
    simp only [outlines]
    rw [hname, ihRest hpath.2 hnamed]

end Names

/-! ## Surveys of skeletons -/

section Survey

variable (settings : Settings) (fs : FileSystem) {source : Source} {skeleton : Skeleton}

/-- The survey of a source that is a skeleton shows its types and members, named as the reader names
them. -/
theorem outlines_survey_skeleton (hlive : source.cancelled = false)
    (hlines : Text.lines source.content = skeleton.lines) :
    (survey settings fs source).outlines =
      ⟨.file, source.path, 1, none, source.content, none⟩ ::
        skeleton.outlines (List.foldl (qualify source.path) source.path) [] [] 0 := by
  let t : Document := ⟨source.path, .ofText "'" source.content⟩
  have hwithin : Within t.path [] [] {} := ⟨by simp [State.Outside], rfl, rfl⟩
  have hraw : t.listing.raw.drop 0 = skeleton.lines ++ [] := by
    rw [List.drop_zero, List.append_nil]
    exact hlines
  have hadds := adds_skeleton rfl skeleton hwithin rfl hraw
  rw [← hlines, ← statements_ofText] at hadds
  have hfacts : facts source.path source.content = (readAll t {} (statements t.listing)).2 := by
    have hscopes : (readAll t {} (statements t.listing)).1.scopes = [] := hadds.scopes_eq
    change _ ++ List.flatMap _ (readAll t {} (statements t.listing)).1.scopes = _
    rw [hscopes, List.flatMap_nil, List.append_nil]
  rw [outlines_survey settings fs source hlive, hfacts, hadds.redraw_eq _ rfl]
  rfl

/-- A skeleton can be read back from its lines: the survey shows one element for each type and
member, from top to bottom, with its dotted name, its lines and its namespace. Only what belongs to a
type with the name of the file is named otherwise. -/
theorem skeleton_read_back (hlive : source.cancelled = false)
    (hlines : Text.lines source.content = skeleton.lines)
    (hpath : source.path ∉ skeleton.owners []) :
    (survey settings fs source).outlines =
      ⟨.file, source.path, 1, none, source.content, none⟩ ::
        skeleton.outlines dottedName [] [] 0 := by
  rw [outlines_survey_skeleton settings fs hlive hlines, skeleton.outlines_dotted hpath (.inl rfl)]

end Survey

/-- A method in the body of which the end of a method stands in a string and in a comment. -/
def quotedEnd : Skeleton :=
  .space ⟨"", by decide⟩ ⟨"", by decide⟩ ⟨"N", by decide, by decide⟩
    (.type .moduleWord ⟨" ", by decide⟩ ⟨"\t", by decide⟩ ⟨"M", by decide, by decide⟩
      (.member .subWord ⟨"  ", by decide⟩ ⟨"", by decide⟩ ⟨"F", by decide, by decide⟩
        [⟨"s = \"End Sub\" ' End Sub", by decide +kernel⟩] .done)
      .done)
    .done

def quotedEndSource : Source where
  path := "a.vb"
  content := Text.joinLines [
    "Namespace N", " Module M", "  Sub F()", "s = \"End Sub\" ' End Sub", "End Sub", "\tEnd Module",
    "End Namespace"]

/-- The module and the method end where their own ends stand. -/
theorem read_back_quotedEnd :
    quotedEndSource.cancelled = false ∧
      Text.lines quotedEndSource.content = quotedEnd.lines ∧
      quotedEndSource.path ∉ quotedEnd.owners [] ∧
      (survey {} {} quotedEndSource).outlines.tail = [
        ⟨.type, "M", 2, some (.nat 6),
          " Module M\n  Sub F()\ns = \"End Sub\" ' End Sub\nEnd Sub\n\tEnd Module", some (.str "N")⟩,
        ⟨.method, "M.F", 3, some (.nat 5),
          "  Sub F()\ns = \"End Sub\" ' End Sub\nEnd Sub", none⟩] := by
  have hlines : Text.lines quotedEndSource.content = quotedEnd.lines := by decide +kernel
  have hpath : quotedEndSource.path ∉ quotedEnd.owners [] := by decide +kernel
  refine ⟨rfl, hlines, hpath, ?_⟩
  rw [skeleton_read_back {} {} rfl hlines hpath]
  rfl

/-- A class within a class whose dotted name is the path of the file. -/
def pathNamed : Skeleton :=
  .type .classWord ⟨"", by decide⟩ ⟨"", by decide⟩ ⟨"a", by decide, by decide⟩
    (.type .classWord ⟨"  ", by decide⟩ ⟨"  ", by decide⟩ ⟨"vb", by decide, by decide⟩
      (.member .subWord ⟨"    ", by decide⟩ ⟨"    ", by decide⟩ ⟨"F", by decide, by decide⟩ [] .done)
      .done)
    .done

def pathNamedSource : Source where
  path := "a.vb"
  content := "Class a\n  Class vb\n    Sub F()\n    End Sub\n  End Class\nEnd Class\n"

/-- The reader takes the inner class for the file, and its method loses the names around it. -/
theorem outlines_pathNamed_ne :
    Text.lines pathNamedSource.content = pathNamed.lines ∧
      pathNamedSource.path ∈ pathNamed.owners [] ∧
      (survey {} {} pathNamedSource).outlines.tail ≠ pathNamed.outlines dottedName [] [] 0 := by
  have hnames : Text.lines pathNamedSource.content = pathNamed.lines ∧
      pathNamedSource.path ∈ pathNamed.owners [] ∧
      (survey {} {} pathNamedSource).outlines.tail.map (·.name) = ["a", "a.vb", "F"] ∧
      (pathNamed.outlines dottedName [] [] 0).map (·.name) = ["a", "a.vb", "a.vb.F"] := by
    decide +kernel
  obtain ⟨hlines, hpath, hsurvey, hdotted⟩ := hnames
  refine ⟨hlines, hpath, ?_⟩
  intro heq
  rw [heq, hdotted] at hsurvey
  exact absurd hsurvey (by decide)

end CodeSurvey.VisualBasic
