import CodeSurvey.Frontend.Bicep
import CodeSurvey.Frontend.Dart
import CodeSurvey.Proofs.VisualBasic.Effects

/-!
# Ownership in sources read line by line

A reader of lines knows the types that are open around a line. That they were declared before is an
invariant of the reader of Visual Basic; in Dart it follows from the nesting of the ranges of lines.
In Bicep the file owns everything. What is declared in Visual Basic and Dart is named after its owner
and by what its head calls it.
-/

namespace CodeSurvey

/-! ## Visual Basic -/

namespace VisualBasic

/-- The open types of a state are among the names known. -/
def State.Known (known : List String) (s : State) : Prop := ∀ x ∈ s.openTypes, x.1 ∈ known

variable {t : Document} {s : State} {known : List String}

/-- The owner of a declaration is known: the file, or an open type. -/
theorem State.Known.owner_mem {path : String} (h : s.Known known) (hpath : path ∈ known) :
    s.owner path ∈ known := by
  rw [s.owner_eq]
  cases hopen : s.openTypes with
  | nil => exact hpath
  | cons x rest => exact h x (hopen ▸ List.mem_cons_self)

/-- A step leaves only types open that are known by then. -/
theorem Effect.keeps_known {line : Nat} {calls : String → Prop} {step : State × List Fact}
    (h : Effect t s line calls step) (hs : s.Known known) :
    step.1.Known (known ++ typesDeclared step.2) := by
  have hkeeps (name : String) (hname : name ∈ known) : name ∈ known ++ typesDeclared step.2 :=
    List.mem_append_left _ hname
  cases h with
  | pass _ hopen | declare _ hopen => exact fun x hx => hkeeps _ (hs x (hopen ▸ hx))
  | @enter s' d facts hblocks hopen hdeclared hkind hheads =>
    unfold State.Known
    rw [hopen]
    split
    · next htype =>
      rw [List.forall_mem_cons]
      exact ⟨List.mem_append_right _ (mem_typesDeclared htype facts), fun x hx => hkeeps _ (hs x hx)⟩
    · exact fun x hx => hkeeps _ (hs x hx)
  | close hblocks hopen hdeclared => exact fun x hx => hkeeps _ (hs x (hopen.subset hx))

/-- Reading statements keeps the open types known. -/
theorem owned_readAll (statements : List (Nat × String)) (hs : s.Known known)
    (hpath : t.path ∈ known) : Owned known (readAll t s statements).2 := by
  induction statements generalizing s known with
  | nil => exact Owned.nil
  | cons statement rest ih =>
    have heffect := Effect.statementStep t s statement.1 statement.2
    apply (heffect.stated.owned (hs.owner_mem hpath)).append
    exact ih (heffect.keeps_known hs) (List.mem_append_left _ hpath)

/-- The facts of a Visual Basic source are in the order of ownership. -/
theorem owned_facts (path text : String) : Owned [path] (facts path text) := by
  let t : Document := ⟨path, .ofText "'" text⟩
  have hstart : State.Known [t.path] {} := by simp [State.Known, State.openTypes]
  have hread := owned_readAll (statements t.listing) hstart (List.mem_singleton.mpr rfl)
  unfold facts
  exact hread.append_right (Owned.of_plain (by simp))

end VisualBasic

/-! ## Dart -/

namespace Dart

variable {owners : List String} {free : List RelationKind} {known : List String} {t : Document}
  {owner : String} {m : Member}

/-- The clauses of the heritage of a type. That of an extension without a name begins with `on`. -/
def headClauses (head : Match) : List (String × String) :=
  heritageClauses (if head.group 3 = "" || head.group 3 = "on" then "on " ++ head.group 4
    else head.group 4)

/-- A declaration is an extension on a type. -/
def ExtensionOn (t : Document) (m : Member) (type : String) : Prop :=
  m.shape = .type ∧ ∃ head, typeHead.find? (declarationText t.listing m.start) = some head ∧
    head.group 2 = "extension" ∧ ∃ list, ("on", list) ∈ headClauses head ∧
      ∃ base ∈ listPieces list, TypeRef.baseName base = type

@[simp] theorem regular_clauseFacts {makes : String → Prop} (name : String) {keyword : String} (line : Nat)
    {clause list : String} (h : keyword = "extension" → clause = "on" →
      ∀ base ∈ listPieces list, makes (TypeRef.baseName base)) :
    AllRegular .dart makes owners free (clauseFacts name keyword line clause list) := by
  refine AllFacts.flatMap_iff.mpr fun base hbase => ?_
  dsimp only
  split
  · simp
  · rw [AllFacts.cons_iff, Fact.regular_relate]
    refine ⟨?_, by simp⟩
    unfold clauseKind
    split_ifs with hextends hon hextension
    · trivial
    · exact .inr (h hextension hon base hbase)
    · trivial
    · trivial

@[simp] theorem regular_callFacts {makes : String → Prop} (line member : String) (number : Nat) :
    AllRegular .dart makes owners loose (callFacts line member number) := by
  refine AllFacts.flatMap_iff.mpr fun call _ => ?_
  dsimp only
  split <;> simp

@[simp] theorem regular_bodyFacts {makes : String → Prop} (body member : String) (firstLine : Nat) :
    AllRegular .dart makes owners loose (bodyFacts body member firstLine) := by
  simp [bodyFacts, lineFacts]

@[simp] theorem regular_parameterFacts {makes : String → Prop} (fields : FieldTypes)
    (owner name : String) (isConstructor : Bool) (line : Nat) (parameter : String) :
    AllRegular .dart makes [owner] free
      (parameterFacts fields owner name isConstructor line parameter) := by
  unfold parameterFacts
  cases parameter? fields parameter with
  | none => simp
  | some p => cases isConstructor <;> simp

/-- What a declaration calls itself; an extension may have no name of its own. -/
def plainName? (t : Document) (m : Member) : Option String :=
  let text := declarationText t.listing m.start
  match m.shape with
  | .imports _ => none
  | .type =>
    (typeHead.find? text).map fun head =>
      if head.group 3 = "" || head.group 3 = "on" then "extension" else head.group 3
  | .constructor => (methodParts? text true).map (·.1)
  | .getter => (getterHead.find? text).map (·.group 2)
  | .method => (methodParts? text false).map (·.1)
  | .field => (fieldHead.find? text).map (·.group 3)

def outlineOf (t : Document) (kind : ElementKind) (name : String) (m : Member) : Outline :=
  ⟨kind, name, m.start + 1, some (.nat (m.stop + 1)), t.listing.span m.start m.stop, none⟩

/-- What a member states: a declaration of the member, if any. -/
abbrev States (t : Document) (owner : String) (m : Member) : List Fact → Prop :=
  Stated .dart (ExtensionOn t m) owner fun d =>
    NamedBy t.path owner (plainName? t m = some ·) d ∧ d.outline = outlineOf t d.kind d.name m

theorem states_declare {plain : String} {kind : ElementKind} {tags : List String} {more : List Fact}
    (hplain : plainName? t m = some plain) (hkind : kind ≠ .file)
    (hmore : AllRegular .dart (ExtensionOn t m) [owner] loose more) :
    States t owner m (declare t kind (qualify t.path owner plain) m owner tags ++ more) := by
  refine .declaration ⟨⟨plain, hplain, by simp⟩, ?_⟩ (by simpa using hkind) (by simp) (by simp [hmore])
  rw [Declaration.outline_addTags, Declaration.kind_addTags, Declaration.name_addTags]
  rfl

theorem states_fieldFacts (hshape : m.shape = .field) :
    States t owner m (fieldFacts t owner m).1 := by
  unfold fieldFacts
  cases hhead : fieldHead.find? (declarationText t.listing m.start) with
  | none => exact .plain AllFacts.nil
  | some head =>
    have hplain : plainName? t m = some (head.group 3) := by simp [plainName?, hshape, hhead]
    dsimp only
    cases head.group? 2 with
    | none =>
      rw [← List.append_nil (declare _ _ _ _ _ _)]
      exact states_declare hplain (by decide) AllFacts.nil
    | some type => exact states_declare hplain (by decide) (by simp)

theorem states_headFacts {head : Match} (hshape : m.shape = .type)
    (hhead : typeHead.find? (declarationText t.listing m.start) = some head) :
    States t owner m (headFacts t owner m head) := by
  apply states_declare (by simp [plainName?, hshape, hhead])
  · exact (ElementKind.isType_ite _).ne_file
  · refine AllFacts.flatMap_iff.mpr fun clause hclause => regular_clauseFacts _ _ ?_
    intro hextension hon base hbase
    exact ⟨hshape, head, hhead, hextension, clause.2, hon ▸ hclause, base, hbase, rfl⟩

theorem states_methodFacts {fields : FieldTypes} {isConstructor : Bool}
    (hname : plainName? t m =
      (methodParts? (declarationText t.listing m.start) isConstructor).map (·.1)) :
    States t owner m (methodFacts t owner fields isConstructor m) := by
  simp only [methodFacts, List.append_assoc]
  cases hparts : methodParts? (declarationText t.listing m.start) isConstructor with
  | none => exact .plain AllFacts.nil
  | some parts => exact states_declare (by rw [hname, hparts]; rfl) (by decide) (by simp)

theorem states_memberFacts (fields : FieldTypes) (m : Member) :
    States t owner m (memberFacts t owner fields m) := by
  unfold memberFacts
  split
  · exact .plain (by simp)
  · next hshape => exact states_methodFacts (by simp [plainName?, hshape])
  · next hshape =>
    simp only [getterFacts, List.append_assoc]
    cases hhead : getterHead.find? (declarationText t.listing m.start) with
    | none => exact .plain AllFacts.nil
    | some head => exact states_declare (by simp [plainName?, hshape, hhead]) (by decide) (by simp)
  · next hshape => exact states_methodFacts (by simp [plainName?, hshape])
  · exact .plain AllFacts.nil
  · exact .plain AllFacts.nil

theorem typeName_mem (m : Member) (head : Match) :
    typeName t owner head ∈ typesDeclared (headFacts t owner m head) := by
  simp [headFacts, declare, typesDeclared, Fact.typeNames]

theorem owned_rangeFacts (start stop : Nat) (howner : owner ∈ known) :
    Owned known (rangeFacts t owner start stop) := by
  induction owner, start, stop using rangeFacts.induct t generalizing known with
  | case1 owner start stop all =>
    rename_i ih
    rw [rangeFacts]
    apply Owned.append_right
    · apply Owned.flatMap
      intro field hfield
      obtain ⟨m, hm, rfl⟩ := List.mem_map.mp hfield
      exact (states_fieldFacts (of_decide_eq_true (List.mem_filter.mp hm).2)).owned howner
    · apply Owned.flatMap
      intro m _
      split
      · next htype =>
        cases hhead : typeHead.find? (declarationText t.listing m.1.start) with
        | none => exact Owned.nil
        | some head =>
          -- The type is declared by its head, before the lines that it owns are read.
          apply ((states_headFacts htype hhead).owned howner).append
          exact ih m head (List.mem_append_right _ (typeName_mem m.1 head))
      · exact (states_memberFacts _ m.1).owned howner

/-- The facts of a Dart source are in the order of ownership. -/
theorem owned_facts (path text : String) : Owned [path] (facts path text) :=
  owned_rangeFacts 0 _ (List.mem_singleton.mpr rfl)

end Dart

/-! ## Bicep -/

namespace Bicep

variable (t : Template)

@[simp] theorem kind_addHead (m : Member) (head : Option Match) (d : Declaration) :
    (addHead m head d).kind = d.kind := by
  unfold addHead
  split
  · split <;> simp [Declaration.note]
  · rfl
  · rfl

@[simp] theorem allPlain_headFacts (m : Member) : AllPlain (headFacts t m) := by
  unfold headFacts
  split
  · dsimp only
    split <;> simp
  · dsimp only
    split <;> simp
  · simp
  · simp

theorem kind_declaration_ne_file (m : Member) : (declaration t m).kind ≠ .file := by
  have hshape : m.shape.kind ≠ .file := by cases m.shape <;> decide
  unfold declaration
  dsimp only
  rw [kind_addHead]
  split <;> exact hshape

theorem owned_memberFacts (symbols : List String) (m : Member) :
    Owned [t.path] (memberFacts t symbols m) := by
  apply Owned.declare (List.mem_singleton.mpr rfl) (kind_declaration_ne_file t m)
  simp

/-- The facts of a Bicep template are in the order of ownership. -/
theorem owned_facts : Owned [t.path] (facts t) :=
  Owned.flatMap fun m _ => owned_memberFacts t _ m

end Bicep

end CodeSurvey
