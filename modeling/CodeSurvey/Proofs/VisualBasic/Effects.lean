import CodeSurvey.Frontend.VisualBasic
import CodeSurvey.Proofs.Ownership.Basic

/-!
# What a statement can do to the blocks of a Visual Basic source

A statement leaves the blocks alone, declares something without a block, declares something and opens
its block, or closes the innermost block. Namespaces have no element and do not count as blocks here.
What is declared is owned by the innermost type that is open.
-/

namespace CodeSurvey.VisualBasic

open Code (Listing)

/-- An open block of an element: the line it starts on and the position of the element. -/
structure Block where
  start : Nat
  position : Nat
  deriving DecidableEq

def Scope.block? : Scope → Option Block
  | «namespace» _ => none
  | type _ start position _ => some ⟨start, position⟩
  | member _ start position => some ⟨start, position⟩

/-- The open blocks of elements, innermost first. -/
def State.blocks (s : State) : List Block := s.scopes.filterMap Scope.block?

/-- What is known of the element of a block that ends on a line. -/
def Block.closeFact (listing : Listing) (line : Nat) (b : Block) : Fact :=
  .close b.position (listing.span b.start (max (min line listing.last) b.start))
    (min line listing.last + 1)

theorem closeFacts_eq (listing : Listing) (line : Nat) (scope : Scope) :
    State.closeFacts listing line scope = scope.block?.toList.map (Block.closeFact listing line) := by
  cases scope <;> rfl

@[simp] theorem allPlain_closeFacts (listing : Listing) (line : Nat) (scope : Scope) :
    AllPlain (State.closeFacts listing line scope) := by
  simp [closeFacts_eq, Block.closeFact]

/-- The name of a type that is open, and the position of its element. -/
def Scope.opened? : Scope → Option (String × Nat)
  | type name _ position _ => some (name, position)
  | _ => none

/-- The open types, innermost first. -/
def State.openTypes (s : State) : List (String × Nat) := s.scopes.filterMap Scope.opened?

theorem State.owner_eq (s : State) (path : String) :
    s.owner path = (s.openTypes.head?.map (·.1)).getD path := by
  unfold owner openType? openTypes
  rw [List.head?_filterMap]
  induction s.scopes with
  | nil => rfl
  | cons scope rest ih =>
    cases scope with
    | «namespace» name => exact ih
    | member name start position => exact ih
    | type name start position isInterface => rfl

/-- What the declaration that a statement without attributes makes calls itself. -/
def headName? (statement : String) : Option String :=
  (((typeHead.find? statement).map (·.group 3)).or ((methodHead.find? statement).map (·.group 3))).or
    (((propertyHead.find? statement).map (·.group 2)).or
      ((fieldHead.find? statement).map (·.group 1)))

/-- What the declaration that a statement makes calls itself. -/
def plainName? (statement : String) : Option String :=
  headName? (takeAttributes statement.length statement).2

/-! ## Regular facts -/

/-- Facts that are regular in Visual Basic, where an owner may be injected into. -/
abbrev Regular (owners : List String) (facts : List Fact) : Prop :=
  AllRegular .visualBasic (fun _ => False) owners loose facts

@[simp] theorem regular_heritageFacts (s : State) (keyword list : String) (line : Nat) :
    Regular [] (heritageFacts s keyword list line) := by
  unfold heritageFacts
  split
  · refine AllFacts.flatMap_iff.mpr fun base _ => ?_
    dsimp only
    split_ifs <;> simp
  · simp

@[simp] theorem regular_parameterFacts (owner name : String) (isConstructor : Bool) (line : Nat)
    (parameter : String) :
    Regular [owner] (parameterFacts owner name isConstructor line parameter) := by
  unfold parameterFacts
  cases parameter? parameter with
  | none => simp
  | some p => cases isConstructor <;> simp

@[simp] theorem regular_bodyFacts (statement member : String) (line : Nat) :
    Regular [] (bodyFacts statement member line) := by
  simp [bodyFacts, callFacts]

/-! ## Declarations -/

/-- The outline with which an element is declared: its text is the line for now. -/
def headOutline (t : Document) (s : State) (kind : ElementKind) (name : String) (line : Nat) :
    Outline where
  kind := kind
  name := name
  firstLine := line + 1
  lastLine := none
  content := t.listing.rawAt line
  scope := (if kind = .method then none else s.namespace?).map .str

/-- A declaration belongs to the owner at hand and adds one outline; the attributes that are stated
with it add none. -/
theorem declare_facts (t : Document) (s : State) (kind : ElementKind) (name : String)
    (tags : List String) (line : Nat) :
    ∃ d marks, (declare t s kind name tags line).2 = .declare (s.owner t.path) d :: marks ∧
      d.outline = headOutline t s kind name line ∧ d.dependencies = [] ∧
      Regular [s.owner t.path] marks := by
  refine ⟨_, _, rfl, ?_, by simp, by simp⟩
  rw [Declaration.outline_noteText?_namespace, Declaration.outline_addTags]
  simp only [headOutline, Declaration.outline]
  congr 1
  exact Option.or_none

/-! ## The effects of a statement -/

/-- A declaration as the head on a line states it, with regular facts after it. -/
structure Heads (t : Document) (s : State) (line : Nat) (calls : String → Prop) (d : Declaration)
    (facts : List Fact) : Prop where
  named : NamedBy t.path (s.owner t.path) calls d
  firstLine_eq : d.outline.firstLine = line + 1
  lastLine_eq : d.outline.lastLine = none
  dependencies_eq : d.dependencies = []
  regular : Regular [s.owner t.path] facts

/-- What a statement on a line does, told by the blocks and the open types before and after it and by
its facts. -/
inductive Effect (t : Document) (s : State) (line : Nat) (calls : String → Prop) :
    State × List Fact → Prop
  /-- It leaves blocks and elements alone. -/
  | pass {s' : State} {facts : List Fact} (hblocks : s'.blocks = s.blocks)
      (hopen : s'.openTypes = s.openTypes) (hdeclared : s'.declared = s.declared)
      (hfacts : Regular [] facts) : Effect t s line calls (s', facts)
  /-- It declares something that has no block. -/
  | declare {s' : State} {d : Declaration} {facts : List Fact} (hblocks : s'.blocks = s.blocks)
      (hopen : s'.openTypes = s.openTypes) (hdeclared : s'.declared = s.declared + 1)
      (hkind : d.kind = .method ∨ d.kind = .property) (hheads : Heads t s line calls d facts) :
      Effect t s line calls (s', .declare (s.owner t.path) d :: facts)
  /-- It declares something and opens its block. -/
  | enter {s' : State} {d : Declaration} {facts : List Fact}
      (hblocks : s'.blocks = ⟨line, s.declared + 1⟩ :: s.blocks)
      (hopen : s'.openTypes =
        if d.kind.IsType then (d.name, s.declared + 1) :: s.openTypes else s.openTypes)
      (hdeclared : s'.declared = s.declared + 1) (hkind : d.kind ≠ .file)
      (hheads : Heads t s line calls d facts) :
      Effect t s line calls (s', .declare (s.owner t.path) d :: facts)
  /-- It closes the innermost block. -/
  | close {s' : State} {b : Block} (hblocks : s.blocks = b :: s'.blocks)
      (hopen : s'.openTypes <:+ s.openTypes) (hdeclared : s'.declared = s.declared) :
      Effect t s line calls (s', [b.closeFact t.listing line])

namespace Effect

variable {t : Document} {s s' : State} {line : Nat} {calls : String → Prop} {step : State × List Fact}

/-- An effect depends on the blocks and the number of elements only. -/
theorem congr (h : Effect t s' line calls step) (hscopes : s.scopes = s'.scopes)
    (hdeclared : s.declared = s'.declared) : Effect t s line calls step := by
  obtain ⟨scopes, attributes, lambdas, declared⟩ := s
  obtain ⟨scopes', attributes', lambdas', declared'⟩ := s'
  dsimp only at hscopes hdeclared
  subst hscopes hdeclared
  cases h with
  | pass hblocks hopen hdeclared hfacts => exact .pass hblocks hopen hdeclared hfacts
  | declare hblocks hopen hdeclared hkind hheads =>
    obtain ⟨hnamed, hfirst, hlast, hdependencies, hregular⟩ := hheads
    exact .declare hblocks hopen hdeclared hkind ⟨hnamed, hfirst, hlast, hdependencies, hregular⟩
  | enter hblocks hopen hdeclared hkind hheads =>
    obtain ⟨hnamed, hfirst, hlast, hdependencies, hregular⟩ := hheads
    exact .enter hblocks hopen hdeclared hkind ⟨hnamed, hfirst, hlast, hdependencies, hregular⟩
  | close hblocks hopen hdeclared => exact .close hblocks hopen hdeclared

/-- What a declaration states, with regular facts after it. -/
theorem heads_declare {plain : String} {more : List Fact} (kind : ElementKind) (tags : List String)
    (line : Nat) (hcalls : calls plain) (hmore : Regular [s.owner t.path] more) :
    ∃ d facts, (VisualBasic.declare t s kind (qualify t.path (s.owner t.path) plain) tags line).2 ++
        more = .declare (s.owner t.path) d :: facts ∧ d.kind = kind ∧
      d.name = qualify t.path (s.owner t.path) plain ∧ Heads t s line calls d facts := by
  obtain ⟨d, marks, hfacts, houtline, hdependencies, hmarks⟩ :=
    declare_facts t s kind (qualify t.path (s.owner t.path) plain) tags line
  have hname : d.name = qualify t.path (s.owner t.path) plain := congrArg Outline.name houtline
  refine ⟨d, marks ++ more, by rw [hfacts, List.cons_append], congrArg Outline.kind houtline, hname, ?_⟩
  constructor
  · exact ⟨plain, hcalls, hname⟩
  · exact congrArg Outline.firstLine houtline
  · exact congrArg Outline.lastLine houtline
  · exact hdependencies
  · exact AllFacts.append_iff.mpr ⟨hmarks, hmore⟩

/-- A declaration that opens no block. -/
theorem of_declare {kind : ElementKind} {plain : String} {tags : List String} {more : List Fact}
    (hcalls : calls plain) (hkind : kind = .method ∨ kind = .property)
    (hmore : Regular [s.owner t.path] more) (hblocks : s'.blocks = s.blocks)
    (hopen : s'.openTypes = s.openTypes) (hdeclared : s'.declared = s.declared + 1) :
    Effect t s line calls (s', (VisualBasic.declare t s kind
      (qualify t.path (s.owner t.path) plain) tags line).2 ++ more) := by
  obtain ⟨d, facts, hfacts, rfl, -, hheads⟩ := heads_declare kind tags line hcalls hmore
  rw [hfacts]
  exact .declare hblocks hopen hdeclared hkind hheads

/-- A declaration that opens its block. -/
theorem of_enter {kind : ElementKind} {plain : String} {tags : List String} {more : List Fact}
    (hcalls : calls plain) (hkind : kind ≠ .file) (hmore : Regular [s.owner t.path] more)
    (hblocks : s'.blocks = ⟨line, s.declared + 1⟩ :: s.blocks)
    (hopen : s'.openTypes = if kind.IsType then
      (qualify t.path (s.owner t.path) plain, s.declared + 1) :: s.openTypes else s.openTypes)
    (hdeclared : s'.declared = s.declared + 1) :
    Effect t s line calls (s', (VisualBasic.declare t s kind
      (qualify t.path (s.owner t.path) plain) tags line).2 ++ more) := by
  obtain ⟨d, facts, hfacts, rfl, hname, hheads⟩ := heads_declare kind tags line hcalls hmore
  rw [← hname] at hopen
  rw [hfacts]
  exact .enter hblocks hopen hdeclared hkind hheads

theorem typeStep {plain : String} (keyword modifiers : String) (hcalls : calls plain) :
    Effect t s line calls (typeStep t s keyword plain modifiers line) := by
  change Effect t s line calls (_, (VisualBasic.declare t s _ _ _ line).2)
  rw [← List.append_nil (VisualBasic.declare t s _ _ _ line).2]
  refine .of_enter hcalls (ElementKind.isType_ite _).ne_file AllFacts.nil rfl ?_ rfl
  rw [if_pos (ElementKind.isType_ite _)]
  rfl

theorem methodStep {plain : String} (modifiers rest : String) (hcalls : calls plain) :
    Effect t s line calls (methodStep t s plain modifiers rest line) := by
  simp only [VisualBasic.methodStep, List.append_assoc]
  split
  · exact .of_declare hcalls (.inl rfl) (by simp) rfl rfl rfl
  · exact .of_enter hcalls (by decide) (by simp) rfl rfl rfl

theorem propertyStep {plain : String} (modifiers rest : String) (hcalls : calls plain) :
    Effect t s line calls (propertyStep t s plain modifiers rest line) := by
  simp only [VisualBasic.propertyStep]
  split
  · exact .of_enter hcalls (by decide) (by simp) rfl rfl rfl
  · exact .of_declare hcalls (.inr rfl) (by simp) rfl rfl rfl

/-- A statement outside of members. What it is called is found by the first shape that it has. -/
theorem outerStep (statement : String) :
    Effect t s line (headName? statement = some ·) (outerStep t s statement line) := by
  unfold VisualBasic.outerStep
  cases importHead.find? statement with
  | some m => exact .pass rfl rfl rfl (by simp)
  | none =>
  cases namespaceHead.find? statement with
  | some m => exact .pass rfl rfl rfl AllFacts.nil
  | none =>
  cases htype : typeHead.find? statement with
  | some m => exact typeStep _ _ (by simp [headName?, htype])
  | none =>
  cases heritage.find? statement with
  | some m => exact .pass rfl rfl rfl (by simp)
  | none =>
  cases hmethod : methodHead.find? statement with
  | some m => exact methodStep _ _ (by simp [headName?, htype, hmethod])
  | none =>
  cases hproperty : propertyHead.find? statement with
  | some m => exact propertyStep _ _ (by simp [headName?, htype, hmethod, hproperty])
  | none =>
  cases hfield : fieldHead.find? statement with
  | some m =>
    dsimp only
    split_ifs
    · exact .of_declare (by simp [headName?, htype, hmethod, hproperty, hfield]) (.inr rfl) (by simp)
        rfl rfl rfl
    · exact .pass rfl rfl rfl AllFacts.nil
  | none => exact .pass rfl rfl rfl AllFacts.nil

theorem endStep (keyword : String) : Effect t s line calls (endStep t s keyword line) := by
  unfold VisualBasic.endStep State.close
  dsimp only
  split_ifs
  · exact .pass rfl rfl rfl AllFacts.nil
  · cases hscopes : s.scopes with
    | nil => exact .pass rfl rfl rfl AllFacts.nil
    | cons scope rest =>
      dsimp only
      rw [closeFacts_eq]
      cases scope with
      | «namespace» name =>
        refine .pass ?_ ?_ rfl AllFacts.nil
        · rw [State.blocks, State.blocks, hscopes]
          rfl
        · rw [State.openTypes, State.openTypes, hscopes]
          rfl
      | _ =>
        refine .close ?_ ?_ rfl
        · rw [State.blocks, hscopes]
          rfl
        · rw [State.openTypes, State.openTypes, hscopes]
          exact (List.suffix_cons _ rest).filterMap _

/-- Every statement has one of the effects. -/
theorem statementStep (t : Document) (s : State) (line : Nat) (statement : String) :
    Effect t s line (plainName? statement = some ·) (statementStep t s line statement) := by
  unfold VisualBasic.statementStep
  split
  · exact .pass rfl rfl rfl AllFacts.nil
  · cases blockEnd.find? statement with
    | some m => exact endStep _
    | none =>
      dsimp only
      split
      · refine .pass ?_ ?_ ?_ (by simp) <;> split <;> rfl
      · split_ifs
        · exact .pass rfl rfl rfl AllFacts.nil
        · -- the attributes that wait are no part of the blocks
          exact (outerStep _).congr rfl rfl

theorem stated (h : Effect t s line calls step) :
    Stated .visualBasic (fun _ => False) (s.owner t.path) (NamedBy t.path (s.owner t.path) calls)
      step.2 := by
  cases h with
  | pass hblocks hopen hdeclared hfacts => exact .plain hfacts
  | declare hblocks hopen hdeclared hkind hheads =>
    refine .declaration hheads.named ?_ hheads.dependencies_eq hheads.regular
    rcases hkind with hkind | hkind <;> rw [hkind] <;> decide
  | enter hblocks hopen hdeclared hkind hheads =>
    exact .declaration hheads.named hkind hheads.dependencies_eq hheads.regular
  | close hblocks hopen hdeclared => exact .ending rfl

end Effect

end CodeSurvey.VisualBasic
