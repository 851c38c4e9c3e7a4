import CodeSurvey.Proofs.Report.Holdings
import CodeSurvey.Proofs.VisualBasic.Methods

/-!
# Fields and methods of Visual Basic classes

A class is printed as its head, fields and methods, and its end. The reader follows the blocks of
methods, and within them the functions without names. It does not follow the function that a field
is initialised with, and it takes a method for one without a body if the head spells the word before
a function of a library. The end of such a function or method closes the class, since no other block
is open there. So the class ends where its own end stands if and only if it has no such member, and
then each field and method belongs to it.
-/

namespace CodeSurvey.VisualBasic

open Code (Listing)

/-! ## Statements outside of members -/

section Outside

variable {t : Document} {s s' : State}

theorem Adds.quiet {facts : List Fact} (hscopes : s'.scopes = s.scopes)
    (hlambdas : s'.lambdas = s.lambdas) (hdeclared : s'.declared = s.declared)
    (hquiet : AllQuiet facts) : Adds s (s', facts) [] := by
  refine ⟨hscopes, hlambdas, hdeclared, fun outlines _ => ?_⟩
  rw [hquiet.redrawAll_eq, List.append_nil]

theorem adds_fieldStep (plain type : String) (line : Nat) :
    Adds s (fieldStep t s plain type line)
      [headOutline t s .property (qualify t.path (s.owner t.path) plain) line] :=
  ⟨rfl, rfl, rfl, fun outlines _ => redrawAll_declare .property _ ["field"] line (by simp) outlines⟩

/-- A method without a body opens no scope. -/
theorem adds_methodStep_of_noBody (plain rest : String) {modifiers : String} {line : Nat}
    (hbody : hasNoBody t s modifiers line = true) :
    Adds s (methodStep t s plain modifiers rest line)
      [headOutline t s .method (qualify t.path (s.owner t.path) plain) line] := by
  simp only [methodStep, hbody, if_true, List.append_assoc]
  exact ⟨rfl, rfl, rfl, fun outlines _ => redrawAll_declare .method _ _ line (by simp) outlines⟩

theorem exists_adds_outerStep {statement : String} (line : Nat)
    (h : ∀ head ∈ blockHeads, head.find? statement = none) :
    ∃ new, Adds s (outerStep t s statement line) new := by
  have hspace := h namespaceHead (by simp [blockHeads])
  have htype := h typeHead (by simp [blockHeads])
  have hmethod := h methodHead (by simp [blockHeads])
  have hproperty := h propertyHead (by simp [blockHeads])
  unfold outerStep
  rw [hspace, htype, hmethod, hproperty]
  cases importHead.find? statement with
  | some m => exact ⟨[], .quiet rfl rfl rfl (by simp)⟩
  | none =>
  cases heritage.find? statement with
  | some m => exact ⟨[], .quiet rfl rfl rfl (regular_heritageFacts _ _ _ _).quiet⟩
  | none =>
  cases fieldHead.find? statement with
  | none => exact ⟨[], .quiet rfl rfl rfl AllFacts.nil⟩
  | some m =>
    dsimp only
    split_ifs
    · exact ⟨_, adds_fieldStep _ _ line⟩
    · exact ⟨[], .quiet rfl rfl rfl AllFacts.nil⟩

/-- Outside of members, a tame statement leaves the scopes as they are. -/
theorem Tame.exists_adds {statement : String} (h : Tame statement) (line : Nat) (hs : s.Outside) :
    ∃ new, Adds s (statementStep t s line statement) new := by
  unfold statementStep
  split
  · exact ⟨[], .quiet rfl rfl rfl AllFacts.nil⟩
  · rw [h.1]
    dsimp only
    split
    · next name start position rest hscopes => exact absurd hscopes (hs name start position rest)
    · split_ifs
      · exact ⟨[], .quiet rfl rfl rfl AllFacts.nil⟩
      · -- the attributes that wait have no bearing on scopes and outlines
        obtain ⟨new, hnew⟩ := exists_adds_outerStep (t := t) (s := { s with
          attributes := s.attributes ++ _ }) line h.2
        exact ⟨new, hnew.scopes_eq, hnew.lambdas_eq, hnew.declared_eq, hnew.redraw_eq⟩

theorem readAll_single (t : Document) (s : State) (line : Nat) (statement : String) :
    readAll t s [(line, statement)] = statementStep t s line statement := by
  simp [readAll]

theorem exists_adds_tame {stmts : List (Nat × String)} (h : ∀ st ∈ stmts, Tame st.2)
    (hs : s.Outside) : ∃ new, Adds s (readAll t s stmts) new := by
  induction stmts generalizing s with
  | nil => exact ⟨[], .quiet rfl rfl rfl AllFacts.nil⟩
  | cons st stmts ih =>
    obtain ⟨line, statement⟩ := st
    obtain ⟨hst, hstmts⟩ := List.forall_mem_cons.mp h
    obtain ⟨new, hnew⟩ : ∃ new, Adds s (statementStep t s line statement) new :=
      hst.exists_adds line hs
    rw [← readAll_single] at hnew
    have houtside : (readAll t s [(line, statement)]).1.Outside := by
      unfold State.Outside
      rwa [hnew.scopes_eq]
    obtain ⟨more, hmore⟩ := ih hstmts houtside
    exact ⟨new ++ more, hnew.append hmore⟩

end Outside

/-! ## What is defined -/

/-- The definitions among facts: owner and name. -/
def definitionsIn (facts : List Fact) : List (String × String) :=
  (holdings facts).map fun h => (h.owner, h.outline.name)

@[simp] theorem definitionsIn_append (facts more : List Fact) :
    definitionsIn (facts ++ more) = definitionsIn facts ++ definitionsIn more := by
  simp [definitionsIn]

theorem definitionsIn_of_quiet {facts : List Fact} (h : AllQuiet facts) :
    definitionsIn facts = [] := by
  rw [definitionsIn, h.holdings_eq, List.map_nil]

/-- Steps add outlines and definitions and come back to the scopes they started from. -/
structure Grows (s : State) (steps : State × List Fact) (new : List Outline)
    (defined : List (String × String)) : Prop extends Adds s steps new where
  defined_eq : definitionsIn steps.2 = defined

section Definitions

variable {t : Document} {s : State}

theorem definitionsIn_declare (kind : ElementKind) (name : String) (tags : List String) (line : Nat)
    {more : List Fact} (hmore : Regular [s.owner t.path] more) :
    definitionsIn ((declare t s kind name tags line).2 ++ more) = [(s.owner t.path, name)] := by
  obtain ⟨d, marks, hfacts, houtline, -, hmarks⟩ := declare_facts t s kind name tags line
  have hquiet : AllQuiet (marks ++ more) := by simp [hmarks.quiet, hmore.quiet]
  rw [hfacts, List.cons_append, definitionsIn, holdings_declare hquiet, houtline]
  rfl

theorem definitionsIn_typeStep (word : TypeWord) (plain : String) (line : Nat) :
    definitionsIn (typeStep t s word.text plain "" line).2 =
      [(s.owner t.path, qualify t.path (s.owner t.path) plain)] := by
  change definitionsIn (declare t s _ _ _ line).2 = _
  rw [← List.append_nil (declare t s _ _ _ line).2]
  exact definitionsIn_declare _ _ _ line AllFacts.nil

theorem definitionsIn_methodStep (plain modifiers rest : String) (line : Nat) :
    definitionsIn (methodStep t s plain modifiers rest line).2 =
      [(s.owner t.path, qualify t.path (s.owner t.path) plain)] := by
  simp only [methodStep, List.append_assoc]
  exact definitionsIn_declare .method _ _ line (by simp)

theorem grows_fieldStep (plain type : String) (line : Nat) :
    Grows s (fieldStep t s plain type line)
      [headOutline t s .property (qualify t.path (s.owner t.path) plain) line]
      [(s.owner t.path, qualify t.path (s.owner t.path) plain)] :=
  ⟨adds_fieldStep plain type line, definitionsIn_declare .property _ ["field"] line (by simp)⟩

theorem Grows.append {xs ys : List (Nat × String)} {new more : List Outline}
    {defined others : List (String × String)}
    (hxs : Grows s (readAll t s xs) new defined)
    (hys : Grows (readAll t s xs).1 (readAll t (readAll t s xs).1 ys) more others) :
    Grows s (readAll t s (xs ++ ys)) (new ++ more) (defined ++ others) := by
  refine ⟨hxs.toAdds.append hys.toAdds, ?_⟩
  rw [readAll_append, definitionsIn_append, hxs.defined_eq, hys.defined_eq]

/-- The lines of a block define its element and what is inside. -/
theorem definitionsIn_block {line : Nat} {inner : List String} {scope : Scope} {head foot : Margin}
    {headText word : String} {o : Outline} {new : List Outline}
    {owned defined : List (String × String)} (hlambdas : s.lambdas = 0) (hhead : Plain headText)
    (hword : word ∈ headWords) (hopens : Opens s (statementStep t s line headText) scope o)
    (howned : definitionsIn (statementStep t s line headText).2 = owned)
    (hblock : scope.block? = some ⟨line, s.declared + 1⟩)
    (hinner : Grows (statementStep t s line headText).1
      (readAll t (statementStep t s line headText).1 (statementsFrom (line + 1) inner)) new defined) :
    definitionsIn (readAll t s (statementsFrom line
      (blockLines head foot headText word inner))).2 = owned ++ defined := by
  have hfoot := statementStep_foot (t := t) (line + (inner.length + 1)) hword
    ((hinner.lambdas_eq.trans hopens.lambdas_eq).trans hlambdas)
    (hinner.scopes_eq.trans hopens.scopes_eq)
  have hclosed :
      definitionsIn (State.closeFacts t.listing (line + (inner.length + 1)) scope) = [] := by
    rw [closeFacts_eq, hblock]
    rfl
  rw [statementsFrom_block line head foot hhead hword inner, readAll_block]
  dsimp only
  rw [hfoot, definitionsIn_append, definitionsIn_append, howned, hinner.defined_eq, hclosed,
    List.append_nil]

end Definitions

/-! ## Members of classes -/

/-- The type of a field with the head of a function without a name for a value. -/
def TypeText.withFunction (type : TypeText) (word : MemberWord) (parameters : List Parameter) :
    TypeText where
  text := type.text ++ " = " ++ word.text ++ parameterText parameters
  ne_nil := by
    intro hempty
    rw [String.toList_append, List.append_eq_nil_iff] at hempty
    obtain ⟨inner, hinner⟩ := exists_parameterText parameters
    rw [hinner] at hempty
    cases hempty.2
  last := by
    rw [String.toList_append]
    exact last_parameterText _ parameters
  unmarked := by
    have hword : Unmarked word.text.toList :=
      .of_bare (bare_of_mem_headWords word.mem_headWords).2
    simp only [String.toList_append, unmarked_append]
    exact ⟨⟨⟨type.unmarked, .of_all (by decide)⟩, hword⟩, unmarked_parameterText parameters⟩

/-- What a class declares: a field, a field whose value is a function without a name over several
lines, or a method. -/
inductive ClassMember where
  | field (margin : Margin) (f : FieldHead) (type : TypeText)
  | functionField (margin foot : Margin) (f : FieldHead) (type : TypeText) (word : MemberWord)
      (parameters : List Parameter) (body : Body)
  | method (margin foot : Margin) (f : MethodHead) (body : Body)

namespace ClassMember

def identifier : ClassMember → String
  | field _ f _ => f.name.text
  | functionField _ _ f _ _ _ _ => f.name.text
  | method _ _ f _ => f.name.text

def lines : ClassMember → List String
  | field margin f type => [margin.text ++ fieldText f type]
  | functionField margin foot f type word parameters body =>
    blockLines margin foot (fieldText f (type.withFunction word parameters)) word.text body.lines
  | method margin foot f body => blockLines margin foot f.text MemberWord.subWord.text body.lines

/-- The number of lines before the end that is taken for the end of the class, if there is one: the
reader does not follow the function of a field, nor a method with a parameter that misleads. -/
def leak? : ClassMember → Option Nat
  | field _ _ _ => none
  | functionField _ _ _ _ _ _ body => some (body.quiet + 1)
  | method _ _ f body => if ∃ p ∈ f.parameters, p.Misleads then some (body.quiet + 1) else none

/-- The outline of a member whose lines stand after `line` others. A method has a block, a field its
first line only. -/
def outline (nameOf : String → String) (line : Nat) : ClassMember → Outline
  | field margin f type =>
    ⟨.property, nameOf f.name.text, line + 1, none, margin.text ++ fieldText f type, none⟩
  | functionField margin _ f type word parameters _ =>
    ⟨.property, nameOf f.name.text, line + 1, none,
      margin.text ++ fieldText f (type.withFunction word parameters), none⟩
  | method margin foot f body =>
    blockOutline .method (nameOf f.name.text) none line (method margin foot f body).lines

theorem lt_of_leak? {m : ClassMember} {n : Nat} (h : m.leak? = some n) : n < m.lines.length := by
  have hblock (head foot : Margin) (text word : String) (body : Body) :
      body.quiet + 1 < (blockLines head foot text word body.lines).length := by
    have hle := body.quiet_le
    simp only [blockLines, List.length_cons, List.length_append, List.length_nil]
    omega
  cases m with
  | field margin f type => cases h
  | functionField margin foot f type word parameters body =>
    cases h
    exact hblock _ _ _ _ body
  | method margin foot f body =>
    rw [leak?] at h
    split at h
    · cases h
      exact hblock _ _ _ _ body
    · cases h

end ClassMember

section Members

variable {t : Document} {s : State} {line : Nat} {tail : List String} {owner : String}

/-- The outline that the head of a field draws. -/
theorem headOutline_field {types : List String} {l : String} (hwithin : Within t.path types [] s)
    (hraw : t.listing.raw.drop line = l :: tail) (name : String) :
    headOutline t s .property name line = ⟨.property, name, line + 1, none, l, none⟩ := by
  simp [headOutline, hwithin.namespace_eq, Listing.rawAt, getElem?_of_drop hraw]

/-- A method has no body for the reader if a parameter misleads. -/
theorem hasNoBody_method {types spaces : List String} {margin : Margin} {f : MethodHead}
    (hcode : t.listing.code = t.listing.raw.map codeOf) (hwithin : Within t.path types spaces s)
    (hraw : t.listing.raw.drop line = (margin.text ++ f.text) :: tail) :
    hasNoBody t s (String.ofList (spaced f.modifiers)) line = true ↔
      ∃ p ∈ f.parameters, p.Misleads := by
  have htype : s.openType?.any (·.2) = false := by
    rw [hwithin.openType_eq]
    split <;> rfl
  rw [← contains_declare_iff f, hasNoBody, contains_mustOverride, htype, codeAt_of_drop hcode hraw,
    codeOf_indented margin f.plain_text, Bool.false_or, Bool.or_false]

/-- Reading a member that keeps its ends to itself adds its outline and its definition. -/
theorem grows_member {m : ClassMember} (hcode : t.listing.code = t.listing.raw.map codeOf)
    (hleak : m.leak? = none) (hwithin : Within t.path [owner] [] s) (hlambdas : s.lambdas = 0)
    (hraw : t.listing.raw.drop line = m.lines ++ tail) :
    Grows s (readAll t s (statementsFrom line m.lines))
      [m.outline (fun x => [owner, x].foldl (qualify t.path) t.path) line]
      [(s.owner t.path, [owner, m.identifier].foldl (qualify t.path) t.path)] := by
  have htype : s.openType?.isSome = true := by rw [hwithin.openType_eq]; rfl
  have hname (x : String) : qualify t.path (s.owner t.path) x =
      [owner, x].foldl (qualify t.path) t.path := by
    rw [hwithin.owner_eq]
    rfl
  cases m with
  | functionField margin foot f type word parameters body => cases hleak
  | field margin f type =>
    obtain ⟨found, hstep⟩ : ∃ found, statementStep t s line (fieldText f type) =
        fieldStep t s f.name.text found line :=
      statementStep_field f type line hwithin.outside htype
    have hgrows := grows_fieldStep (t := t) (s := s) f.name.text found line
    rw [← hstep, hname, headOutline_field hwithin hraw] at hgrows
    rw [ClassMember.lines, statementsFrom_cons,
      statementsOn_indented margin (plain_fieldText f type), statementsFrom_nil,
      List.map_singleton, List.append_nil, readAll_single]
    exact hgrows
  | method margin foot f body =>
    have hbody : hasNoBody t s (String.ofList (spaced f.modifiers)) line = false := by
      rw [← Bool.not_eq_true, hasNoBody_method hcode hwithin hraw]
      intro hmisleads
      simp [ClassMember.leak?, hmisleads] at hleak
    obtain ⟨rest, hstep⟩ : ∃ rest, statementStep t s line f.text =
        methodStep t s f.name.text (String.ofList (spaced f.modifiers)) rest line :=
      f.statementStep_text hwithin.outside
    have hopens := opens_methodStep f.name.text rest hbody
    have howned := definitionsIn_methodStep (t := t) (s := s) f.name.text
      (String.ofList (spaced f.modifiers)) rest line
    rw [← hstep] at hopens howned
    obtain ⟨facts, hquiet, hread⟩ := passes_body (t := t) body hopens.scopes_eq (line + 1)
    have hinner : Grows (statementStep t s line f.text).1
        (readAll t (statementStep t s line f.text).1 (statementsFrom (line + 1) body.lines))
        [] [] := by
      rw [hread]
      exact ⟨.quiet rfl rfl rfl hquiet, definitionsIn_of_quiet hquiet⟩
    have hword := MemberWord.subWord.mem_headWords
    rw [← hname]
    exact ⟨adds_block hwithin hlambdas f.plain_text hword hraw hopens rfl hinner.toAdds,
      definitionsIn_block hlambdas f.plain_text hword hopens howned rfl hinner⟩

/-- An end is read after `n` of the lines, with the scopes as they were before the lines. -/
abbrev EndsAfter (t : Document) (s : State) (line : Nat) (lines : List String) (n : Nat) : Prop :=
  ∃ (before : List String) (foot : Margin) (word : String) (after : List String),
    lines = before ++ (foot.text ++ ("End " ++ word)) :: after ∧ word ∈ headWords ∧
      before.length = n ∧ ∃ new, Adds s (readAll t s (statementsFrom line before)) new

/-- Where the block of a head is not followed, its first end is read with the scopes as they were
before the head. -/
theorem endsAfter_unfollowed {headText : String} (head foot : Margin) (hhead : Plain headText)
    (word : MemberWord) (body : Body) (hs : s.Outside) {new : List Outline}
    (hfirst : Adds s (statementStep t s line headText) new) :
    EndsAfter t s line (blockLines head foot headText word.text body.lines) (body.quiet + 1) := by
  obtain ⟨before, foot', word', after, hlines, hlength, htame⟩ := body.exists_foot foot word
  refine ⟨(head.text ++ headText) :: before, foot', word'.text, after, ?_, word'.mem_headWords,
    congrArg (· + 1) hlength, ?_⟩
  · rw [blockLines, hlines, List.cons_append]
  · rw [← readAll_single] at hfirst
    have houtside : (readAll t s [(line, headText)]).1.Outside := by
      unfold State.Outside
      rwa [hfirst.scopes_eq]
    have hall : ∀ st ∈ statementsFrom (line + 1) before, Tame st.2 := by
      intro st hst
      obtain ⟨p, hp, hst⟩ := List.mem_flatMap.mp hst
      obtain ⟨statement, hstatement, rfl⟩ := List.mem_map.mp hst
      exact htame p.1 (List.fst_mem_of_mem_zipIdx hp) statement hstatement
    obtain ⟨more, hmore⟩ := exists_adds_tame (t := t) hall houtside
    rw [statementsFrom_cons, statementsOn_indented head hhead]
    exact ⟨new ++ more, hfirst.append hmore⟩

/-- Reading a member that does not keep its ends to itself comes to an end with the scopes as they
were before. -/
theorem endsAfter_leak {m : ClassMember} {n : Nat}
    (hcode : t.listing.code = t.listing.raw.map codeOf) (hleak : m.leak? = some n)
    (hwithin : Within t.path [owner] [] s) (hraw : t.listing.raw.drop line = m.lines ++ tail) :
    EndsAfter t s line m.lines n := by
  cases m with
  | field margin f type => cases hleak
  | functionField margin foot f type word parameters body =>
    obtain rfl : body.quiet + 1 = n := Option.some.inj hleak
    have htype : s.openType?.isSome = true := by rw [hwithin.openType_eq]; rfl
    obtain ⟨found, hstep⟩ := statementStep_field (t := t) f (type.withFunction word parameters)
      line hwithin.outside htype
    have hfirst := adds_fieldStep (t := t) (s := s) f.name.text found line
    rw [← hstep] at hfirst
    exact endsAfter_unfollowed margin foot (plain_fieldText f _) word body hwithin.outside hfirst
  | method margin foot f body =>
    rw [ClassMember.leak?] at hleak
    split at hleak
    · next hmisleads =>
      obtain rfl : body.quiet + 1 = n := Option.some.inj hleak
      have hbody : hasNoBody t s (String.ofList (spaced f.modifiers)) line = true :=
        (hasNoBody_method hcode hwithin hraw).mpr hmisleads
      obtain ⟨rest, hstep⟩ : ∃ rest, statementStep t s line f.text =
          methodStep t s f.name.text (String.ofList (spaced f.modifiers)) rest line :=
        f.statementStep_text hwithin.outside
      have hfirst := adds_methodStep_of_noBody f.name.text rest hbody
      rw [← hstep] at hfirst
      exact endsAfter_unfollowed margin foot f.plain_text .subWord body hwithin.outside hfirst
    · cases hleak

end Members

/-! ## Lists of members -/

/-- The number of lines before the first end that is read with no block open within the class, or of
all lines if there is none. -/
def quietLines : List ClassMember → Nat
  | [] => 0
  | m :: ms =>
    match m.leak? with
    | some n => n
    | none => m.lines.length + quietLines ms

theorem quietLines_eq_iff (ms : List ClassMember) :
    quietLines ms = (ms.flatMap ClassMember.lines).length ↔ ∀ m ∈ ms, m.leak? = none := by
  induction ms with
  | nil => simp [quietLines]
  | cons m ms ih =>
    rw [quietLines, List.flatMap_cons, List.length_append, List.forall_mem_cons]
    cases hleak : m.leak? with
    | none => simp only [Nat.add_left_cancel_iff, ih, true_and]
    | some n =>
      have hlt := ClassMember.lt_of_leak? hleak
      simp only [reduceCtorEq, false_and, iff_false]
      omega

/-- The outlines of members that follow one another after `line` lines. -/
def memberOutlines (nameOf : String → String) (line : Nat) : List ClassMember → List Outline
  | [] => []
  | m :: ms => m.outline nameOf line :: memberOutlines nameOf (line + m.lines.length) ms

section Lists

variable {t : Document} {s : State} {line : Nat} {tail : List String} {owner : String}

/-- Reading members that keep their ends to themselves adds their outlines and definitions. -/
theorem grows_members {ms : List ClassMember} (hcode : t.listing.code = t.listing.raw.map codeOf)
    (hleak : ∀ m ∈ ms, m.leak? = none) (hwithin : Within t.path [owner] [] s)
    (hlambdas : s.lambdas = 0)
    (hraw : t.listing.raw.drop line = ms.flatMap ClassMember.lines ++ tail) :
    Grows s (readAll t s (statementsFrom line (ms.flatMap ClassMember.lines)))
      (memberOutlines (fun x => [owner, x].foldl (qualify t.path) t.path) line ms)
      (ms.map fun m => (qualify t.path t.path owner,
        [owner, m.identifier].foldl (qualify t.path) t.path)) := by
  induction ms generalizing s line with
  | nil => exact ⟨.quiet rfl rfl rfl AllFacts.nil, rfl⟩
  | cons m ms ih =>
    obtain ⟨hm, hms⟩ := List.forall_mem_cons.mp hleak
    rw [List.flatMap_cons, List.append_assoc] at hraw
    have hfirst := grows_member hcode hm hwithin hlambdas hraw
    have howner : s.owner t.path = qualify t.path t.path owner := hwithin.owner_eq
    rw [howner] at hfirst
    have hrest := ih hms (hwithin.of_scopes hfirst.scopes_eq) (hfirst.lambdas_eq.trans hlambdas)
      (drop_of_drop hraw)
    rw [List.flatMap_cons, statementsFrom_append]
    exact hfirst.append hrest

/-- Reading members comes to an end with the scopes as they were before the members. -/
theorem endsAfter_members (ms : List ClassMember)
    (hcode : t.listing.code = t.listing.raw.map codeOf) (hwithin : Within t.path [owner] [] s)
    (hlambdas : s.lambdas = 0) (foot : Margin)
    (hraw : t.listing.raw.drop line = ms.flatMap ClassMember.lines ++ tail) :
    EndsAfter t s line
      (ms.flatMap ClassMember.lines ++ [foot.text ++ ("End " ++ TypeWord.classWord.text)])
      (quietLines ms) := by
  induction ms generalizing s line with
  | nil =>
    exact ⟨[], foot, _, [], rfl, TypeWord.classWord.mem_headWords, rfl, [],
      .quiet rfl rfl rfl AllFacts.nil⟩
  | cons m ms ih =>
    rw [List.flatMap_cons, List.append_assoc] at hraw
    rw [List.flatMap_cons, List.append_assoc, quietLines]
    cases hleak : m.leak? with
    | some n =>
      obtain ⟨before, foot', word, after, hlines, hword, hlength, hadds⟩ :=
        endsAfter_leak hcode hleak hwithin hraw
      refine ⟨before, foot', word, after ++ (ms.flatMap ClassMember.lines ++
        [foot.text ++ ("End " ++ TypeWord.classWord.text)]), ?_, hword, hlength, hadds⟩
      rw [hlines, List.append_assoc, List.cons_append]
    | none =>
      have hfirst := (grows_member hcode hleak hwithin hlambdas hraw).toAdds
      obtain ⟨inner, foot', word, after, hlines, hword, hlength, more, hmore⟩ :=
        ih (hwithin.of_scopes hfirst.scopes_eq) (hfirst.lambdas_eq.trans hlambdas)
          (drop_of_drop hraw)
      have hadds := hfirst.append hmore
      rw [← statementsFrom_append] at hadds
      refine ⟨m.lines ++ inner, foot', word, after, ?_, hword, ?_, _, hadds⟩
      · rw [hlines, List.append_assoc]
      · rw [List.length_append, hlength]

end Lists

/-! ## Closed blocks -/

/-- The element at a position is declared, and its block is not open. -/
structure Sealed (p : Nat) (s : State) (outlines : List Outline) : Prop where
  count : outlines.length = s.declared + 1
  declared : p ≤ s.declared
  later : ∀ b ∈ s.blocks, p < b.position

namespace Sealed

variable {t : Document} {s : State} {p : Nat} {outlines : List Outline}

/-- No effect changes the outline of a block that is closed. -/
theorem step {line : Nat} {step : State × List Fact} (h : Sealed p s outlines)
    {calls : String → Prop} (heffect : Effect t s line calls step) :
    Sealed p step.1 (redrawAll outlines step.2) ∧
      (redrawAll outlines step.2)[p]? = outlines[p]? := by
  obtain ⟨hcount, hdeclared, hlater⟩ := h
  cases heffect with
  | pass hblocks hopen hsame hfacts =>
    rw [hfacts.quiet.redrawAll_eq]
    exact ⟨⟨by rw [hsame, hcount], by rwa [hsame], by rwa [hblocks]⟩, rfl⟩
  | @declare s' d facts hblocks hopen hmore hkind hheads =>
    rw [redrawAll_cons, hheads.regular.quiet.redrawAll_eq]
    have hle : p ≤ s'.declared := by omega
    refine ⟨⟨?_, hle, by rwa [hblocks]⟩, List.getElem?_append_left (by omega)⟩
    simp [Fact.redraw, hcount, hmore]
  | @enter s' d facts hblocks hopen hmore hkind hheads =>
    rw [redrawAll_cons, hheads.regular.quiet.redrawAll_eq]
    have hle : p ≤ s'.declared := by omega
    refine ⟨⟨?_, hle, ?_⟩, List.getElem?_append_left (by omega)⟩
    · simp [Fact.redraw, hcount, hmore]
    · rw [hblocks]
      exact List.forall_mem_cons.mpr ⟨Nat.lt_succ_of_le hdeclared, hlater⟩
  | @close s' b hblocks hopen hsame =>
    rw [hblocks] at hlater
    obtain ⟨hb, hlater⟩ := List.forall_mem_cons.mp hlater
    rw [redrawAll_cons, redrawAll_nil]
    refine ⟨⟨?_, by rwa [hsame], hlater⟩, ?_⟩
    · simp [Block.closeFact, Fact.redraw, hcount, hsame]
    · simp [Block.closeFact, Fact.redraw, hb.ne']

theorem readAll (h : Sealed p s outlines) (stmts : List (Nat × String)) :
    Sealed p (VisualBasic.readAll t s stmts).1
        (redrawAll outlines (VisualBasic.readAll t s stmts).2) ∧
      (redrawAll outlines (VisualBasic.readAll t s stmts).2)[p]? = outlines[p]? := by
  induction stmts generalizing s outlines with
  | nil => exact ⟨h, rfl⟩
  | cons st stmts ih =>
    obtain ⟨hstep, hkept⟩ := h.step (.statementStep t s st.1 st.2)
    obtain ⟨hrest, hkept'⟩ := ih hstep
    simp only [VisualBasic.readAll, redrawAll_append]
    exact ⟨hrest, hkept'.trans hkept⟩

/-- Closing the blocks that are left open does not change it either. -/
theorem closeAll (listing : Listing) (line : Nat) {blocks : List Block}
    (h : ∀ b ∈ blocks, p < b.position) (outlines : List Outline) :
    (redrawAll outlines (blocks.map (Block.closeFact listing line)))[p]? = outlines[p]? := by
  induction blocks generalizing outlines with
  | nil => rfl
  | cons b blocks ih =>
    obtain ⟨hb, hblocks⟩ := List.forall_mem_cons.mp h
    rw [List.map_cons, redrawAll_cons, ih hblocks]
    simp [Block.closeFact, Fact.redraw, hb.ne']

end Sealed

/-! ## Classes -/

def classText (name : Name) : String := TypeWord.classWord.text ++ " " ++ name.text

theorem toList_classText (name : Name) : (classText name).toList =
    TypeWord.classWord.text.toList ++ ([' '] ++ name.text.toList) := by
  simp [classText]

theorem plain_classText (name : Name) : Plain (classText name) := by
  have htext : (classText name).toList =
      TypeWord.classWord.text.toList ++ ([' '] ++ (name.text.toList ++ [])) := by simp [classText]
  exact plain_head TypeWord.classWord.mem_headWords name.isName htext (by simp)

/-- A class with its members, one after the other. -/
structure ClassText where
  head : Margin
  foot : Margin
  name : Name
  members : List ClassMember

namespace ClassText

variable (c : ClassText)

def lines : List String :=
  blockLines c.head c.foot (classText c.name) TypeWord.classWord.text
    (c.members.flatMap ClassMember.lines)

/-- The line of the first end that is read with no block open within the class. -/
def closing : Nat := quietLines c.members + 2

def outlines : List Outline :=
  blockOutline .type c.name.text none 0 c.lines ::
    memberOutlines (fun x => c.name.text ++ "." ++ x) 1 c.members

/-- The class belongs to the file, and its members belong to the class. -/
def definitions (path : String) : List (String × String) :=
  (path, c.name.text) :: c.members.map fun m => (c.name.text, c.name.text ++ "." ++ m.identifier)

theorem closing_eq_iff : c.closing = c.lines.length ↔ ∀ m ∈ c.members, m.leak? = none := by
  rw [← quietLines_eq_iff]
  simp only [closing, lines, blockLines, List.length_cons, List.length_append, List.length_nil]
  omega

end ClassText

section Survey

variable (settings : Settings) (fs : FileSystem) {source : Source} {c : ClassText}

theorem definitions_survey (hlive : source.cancelled = false) :
    ((survey settings fs source).relationsOf .defines).map (fun rel => (rel.source, rel.target)) =
      definitionsIn (facts source.path source.content) := by
  have hopening (place : Place) (content : String) :
      (Report.opening place content "VB.NET").relationsOf .defines = [] := rfl
  simp only [survey, hlive, Bool.false_eq_true, if_false]
  rw [Report.relationsOf_detect,
    Report.definitions_recordAll _ _ (owned_facts source.path source.content), hopening,
    definitionsIn, List.map_nil, List.nil_append]

section Reading

variable {t : Document} (hcode : t.listing.code = t.listing.raw.map codeOf)

/-- The head of a class opens its scope. -/
theorem opens_classHead :
    Opens {} (statementStep t {} 0 (classText c.name))
      (.type (qualify t.path t.path c.name.text) 0 1 false)
      (headOutline t {} .type (qualify t.path (State.owner {} t.path) c.name.text) 0) := by
  have hopens := opens_typeStep (t := t) (s := {}) .classWord c.name.text 0
  rw [← statementStep_type .classWord c.name.isName (toList_classText c.name)
    (by simp [State.Outside])] at hopens
  exact hopens

theorem foldl_qualify_single (path name : String) :
    ([] ++ [name]).foldl (qualify path) path = name := if_pos rfl

theorem within_nil (path : String) : Within path [] [] {} := ⟨by simp [State.Outside], rfl, rfl⟩

include hcode

/-- Up to the first end with no block open within it, reading a class adds its outline, which ends
there, and comes back to no scope. -/
theorem exists_adds_class (hraw : t.listing.raw = c.lines) :
    ∃ own after new, c.lines = own ++ after ∧ own.length = c.closing ∧
      Adds {} (readAll t {} (statementsFrom 0 own))
        (blockOutline .type c.name.text none 0 own :: new) := by
  have hopens := opens_classHead (t := t) (c := c)
  have hwithin := (within_nil t.path).enterType hopens.scopes_eq
  have hinside : t.listing.raw.drop 1 = c.members.flatMap ClassMember.lines ++
      [c.foot.text ++ ("End " ++ TypeWord.classWord.text)] := by
    rw [hraw]
    rfl
  obtain ⟨inner, foot, word, after, hlines, hword, hlength, new, hnew⟩ :=
    endsAfter_members c.members hcode hwithin hopens.lambdas_eq c.foot hinside
  have hsplit : c.lines =
      blockLines c.head foot (classText c.name) word inner ++ after := by
    rw [ClassText.lines, blockLines, hlines]
    simp [blockLines]
  have hdrop : t.listing.raw.drop 0 =
      blockLines c.head foot (classText c.name) word inner ++ after :=
    hraw.trans hsplit
  have hadds := adds_block (within_nil t.path) rfl (plain_classText c.name) hword hdrop hopens
    rfl hnew
  rw [foldl_qualify_single, if_pos (.inr rfl)] at hadds
  refine ⟨_, after, new, hsplit, ?_, hadds⟩
  simp [blockLines, ClassText.closing, hlength]

/-- Where all members keep their ends to themselves, reading a class adds its outline and those of its
members, and the definitions that lead to them. -/
theorem grows_class (hraw : t.listing.raw = c.lines) (hleak : ∀ m ∈ c.members, m.leak? = none) :
    Grows {} (readAll t {} (statementsFrom 0 c.lines))
      (blockOutline .type c.name.text none 0 c.lines ::
        memberOutlines (fun x => qualify t.path c.name.text x) 1 c.members)
      ((t.path, c.name.text) ::
        c.members.map fun m => (c.name.text, qualify t.path c.name.text m.identifier)) := by
  have hopens := opens_classHead (t := t) (c := c)
  have hwithin := (within_nil t.path).enterType hopens.scopes_eq
  have hdrop : t.listing.raw.drop 0 = c.lines ++ [] := by
    rw [List.append_nil]
    exact hraw
  have hmembers := grows_members hcode hleak hwithin hopens.lambdas_eq (drop_inside hdrop)
  have hself : qualify t.path t.path c.name.text = c.name.text := if_pos rfl
  have howned : definitionsIn (statementStep t {} 0 (classText c.name)).2 =
      [(t.path, c.name.text)] := by
    rw [statementStep_type .classWord c.name.isName (toList_classText c.name)
      (within_nil t.path).outside, definitionsIn_typeStep]
    exact congrArg (fun name => [(t.path, name)]) hself
  have hword := TypeWord.classWord.mem_headWords
  have hgrows := Grows.mk
    (adds_block (within_nil t.path) rfl (plain_classText c.name) hword hdrop hopens rfl
      hmembers.toAdds)
    (definitionsIn_block rfl (plain_classText c.name) hword hopens howned rfl hmembers)
  rw [foldl_qualify_single, if_pos (.inr rfl)] at hgrows
  simp only [List.foldl_cons, List.foldl_nil, hself] at hgrows
  exact hgrows

end Reading

/-- A class ends on the line of the first end that is read with no block open within it. This is its
own end if and only if no field has a function without a name for a value and no method has a
parameter that misleads, and then all its members belong to it. -/
theorem class_ends_iff (hlive : source.cancelled = false)
    (hlines : Text.lines source.content = c.lines) :
    (∃ o, (survey settings fs source).outlines[1]? = some o ∧ o.kind = .type ∧
        o.name = c.name.text ∧ o.firstLine = 1 ∧ o.lastLine = some (.nat c.closing)) ∧
      (c.closing = c.lines.length ↔ ∀ m ∈ c.members, m.leak? = none) ∧
      ((∀ m ∈ c.members, m.leak? = none) → source.path ≠ c.name.text →
        (survey settings fs source).outlines.tail = c.outlines ∧
          ((survey settings fs source).relationsOf .defines).map
              (fun rel => (rel.source, rel.target)) = c.definitions source.path) := by
  let t : Document := ⟨source.path, .ofText "'" source.content⟩
  have hcode : t.listing.code = t.listing.raw.map codeOf := rfl
  have hstatements : statements t.listing = statementsFrom 0 c.lines := by
    rw [← hlines]
    exact statements_ofText source.content
  have hfacts : facts source.path source.content = (readAll t {} (statementsFrom 0 c.lines)).2 ++
      (readAll t {} (statementsFrom 0 c.lines)).1.blocks.map
        (Block.closeFact t.listing t.listing.last) := by
    rw [← hstatements, State.blocks, ← flatMap_closeFacts]
    rfl
  refine ⟨?_, c.closing_eq_iff, ?_⟩
  · obtain ⟨own, after, new, hsplit, hlength, hadds⟩ := exists_adds_class hcode hlines
    have hsealed : Sealed 1 (readAll t {} (statementsFrom 0 own)).1
        ([⟨.file, source.path, 1, none, source.content, none⟩] ++
          blockOutline .type c.name.text none 0 own :: new) := by
      refine ⟨?_, ?_, ?_⟩
      · rw [hadds.declared_eq]
        simp [Nat.add_comm]
      · rw [hadds.declared_eq]
        simp
      · rw [State.blocks, hadds.scopes_eq]
        exact List.forall_mem_nil _
    obtain ⟨hlater, hkept⟩ := hsealed.readAll (t := t) (statementsFrom (0 + own.length) after)
    refine ⟨blockOutline .type c.name.text none 0 own, ?_, rfl, rfl, rfl, ?_⟩
    · rw [outlines_survey settings fs source hlive, hfacts, hsplit, statementsFrom_append,
        readAll_append, redrawAll_append, redrawAll_append, hadds.redraw_eq _ rfl,
        Sealed.closeAll _ _ hlater.later, hkept]
      rfl
    · rw [← hlength, ← Nat.zero_add own.length]
      rfl
  · intro hleak hpath
    have hgrows := grows_class hcode hlines hleak
    have hblocks : (readAll t {} (statementsFrom 0 c.lines)).1.blocks = [] := by
      rw [State.blocks, hgrows.scopes_eq]
      rfl
    have hname : (fun x => qualify t.path c.name.text x) = fun x => c.name.text ++ "." ++ x :=
      funext fun x => if_neg hpath.symm
    rw [hblocks, List.map_nil, List.append_nil] at hfacts
    constructor
    · rw [outlines_survey settings fs source hlive, hfacts, hgrows.redraw_eq _ rfl, hname]
      rfl
    · rw [definitions_survey settings fs hlive, hfacts, hgrows.defined_eq]
      simp only [congrFun hname]
      rfl

end Survey

/-- A class with a function for the value of a field and a method with a parameter that misleads. -/
def leakyClass : ClassText where
  head := ⟨"", Eq.refl true⟩
  foot := ⟨"", Eq.refl true⟩
  name := ⟨"Job", by decide +kernel⟩
  members := [
    .functionField ⟨"  ", Eq.refl true⟩ ⟨"  ", Eq.refl true⟩
      ⟨.privateWord, [], ⟨"run", by decide +kernel⟩, by decide, by decide⟩
      ⟨"Action", by decide, by rintro c ⟨⟩; rfl, .of_all (by decide)⟩ .subWord [] .done,
    .field ⟨"  ", Eq.refl true⟩
      ⟨.privateWord, [], ⟨"count", by decide +kernel⟩, by decide, by decide⟩
      ⟨"Integer", by decide, by rintro c ⟨⟩; rfl, .of_all (by decide)⟩,
    .method ⟨"  ", Eq.refl true⟩ ⟨"  ", Eq.refl true⟩
      ⟨["Public"], ⟨"Save", by decide +kernel⟩,
        [⟨⟨"redeclare", by decide +kernel⟩, some ⟨"Integer", by decide +kernel⟩⟩], by decide⟩
      .done]

def leakySource : Source where
  path := "Job.vb"
  content := Text.joinLines [
    "Class Job", "  Private run As Action = Sub()", "  End Sub", "  Private count As Integer",
    "  Public Sub Save(redeclare As Integer)", "  End Sub", "End Class"]

/-- The end of the function closes the class. The field below is lost, and the method belongs to the
file and has no body. -/
theorem class_closed_early :
    Text.lines leakySource.content = leakyClass.lines ∧
      (survey {} {} leakySource).outlines.tail.map
          (fun o => (o.name, o.firstLine, o.lastLine.bind Json.nat?)) =
        [("Job", 1, some 3), ("Job.run", 2, none), ("Save", 5, none)] ∧
      ((survey {} {} leakySource).relationsOf .defines).map (fun rel => (rel.source, rel.target)) =
        [("Job.vb", "Job"), ("Job", "Job.run"), ("Job.vb", "Save")] := by
  decide +kernel

/-- A class with a function in the body of a method, and with parameters that do not mislead. -/
def soundClass : ClassText where
  head := ⟨"", Eq.refl true⟩
  foot := ⟨"", Eq.refl true⟩
  name := ⟨"Job", by decide +kernel⟩
  members := [
    .field ⟨"  ", Eq.refl true⟩
      ⟨.privateWord, ["Shared", "ReadOnly"], ⟨"größe", by decide +kernel⟩, by decide, by decide⟩
      ⟨"Integer = 1", by decide, by rintro c ⟨⟩; rfl, .of_all (by decide)⟩,
    .method ⟨"  ", Eq.refl true⟩ ⟨"  ", Eq.refl true⟩
      ⟨["Public"], ⟨"Save", by decide +kernel⟩,
        [⟨⟨"redeclare", by decide +kernel⟩, none⟩,
          ⟨⟨"declared", by decide +kernel⟩, some ⟨"Integer", by decide +kernel⟩⟩], by decide⟩
      (.function ⟨"    Dim log As Action = Sub()", by decide +kernel, by decide +kernel⟩ .subWord
        ⟨"    ", Eq.refl true⟩ (.line ⟨"      Log()", by decide +kernel, by decide +kernel⟩ .done)
        .done)]

def soundSource : Source where
  path := "Job.vb"
  content := Text.joinLines [
    "Class Job", "  Private Shared ReadOnly größe As Integer = 1",
    "  Public Sub Save(redeclare, declared As Integer)", "    Dim log As Action = Sub()",
    "      Log()", "    End Sub", "  End Sub", "End Class"]

/-- One class ends where the function of its field does, the other one where it ends itself. -/
theorem class_ends_iff_job :
    (leakySource.cancelled = false ∧ Text.lines leakySource.content = leakyClass.lines ∧
      leakyClass.lines.length = 7 ∧
      ∃ o, (survey {} {} leakySource).outlines[1]? = some o ∧ o.name = "Job" ∧
        o.lastLine = some (.nat 3)) ∧
    soundSource.cancelled = false ∧ Text.lines soundSource.content = soundClass.lines ∧
      (∀ m ∈ soundClass.members, m.leak? = none) ∧ soundSource.path ≠ soundClass.name.text ∧
      (survey {} {} soundSource).outlines.tail = soundClass.outlines ∧
      soundClass.outlines.map (fun o => (o.name, o.firstLine, o.lastLine.bind Json.nat?)) =
        [("Job", 1, some 8), ("Job.größe", 2, none), ("Job.Save", 3, some 7)] ∧
      ((survey {} {} soundSource).relationsOf .defines).map (fun rel => (rel.source, rel.target)) =
        [("Job.vb", "Job"), ("Job", "Job.größe"), ("Job", "Job.Save")] := by
  have hleaky : Text.lines leakySource.content = leakyClass.lines := by decide +kernel
  have hsound : Text.lines soundSource.content = soundClass.lines := by decide +kernel
  have hleak : ∀ m ∈ soundClass.members, m.leak? = none := by decide
  have hpath : soundSource.path ≠ soundClass.name.text := by decide
  obtain ⟨⟨o, ho, -, hname, -, hlast⟩, -, -⟩ := class_ends_iff {} {} rfl hleaky
  obtain ⟨-, -, hshape⟩ := class_ends_iff {} {} rfl hsound
  obtain ⟨houtlines, hdefinitions⟩ := hshape hleak hpath
  exact ⟨⟨rfl, hleaky, rfl, o, ho, hname, hlast⟩, rfl, hsound, hleak, hpath, houtlines,
    by decide +kernel, hdefinitions⟩

end CodeSurvey.VisualBasic
