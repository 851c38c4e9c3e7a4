import CodeSurvey.Proofs.Dart.Skeleton
import CodeSurvey.Proofs.Text.Cuts

/-!
# The bodies of Dart members

The code of a member is put together again from its lines, the parameters are cut off its start, and
what is left is read as the lines of the body. These are ends of consecutive lines of the source.
But they are counted from the first line of the member, so that what a body does is said to be as
many lines above the line where it is written as there are line breaks before the end of the
parameters.
-/

namespace CodeSurvey

namespace Dart

open Code (Listing)

/-! ## The lines of a member -/

/-- The lines of a member as code, the first without annotations. -/
def memberLines (t : Document) (m : Member) : List String :=
  declarationText t.listing m.start :: (t.listing.code.drop (m.start + 1)).take (m.stop - m.start)

theorem memberCode_eq (t : Document) (m : Member) (ending : String) :
    memberCode t m ending = String.join ((memberLines t m).map (· ++ ending)) := rfl

theorem suffix_takeAnnotations (fuel : Nat) (text : String) :
    (takeAnnotations fuel text).2.toList <:+ text.toList := by
  induction fuel generalizing text with
  | zero => exact List.suffix_refl _
  | succ fuel ih =>
    rw [takeAnnotations]
    split
    · exact List.suffix_refl _
    · next m hm =>
      refine (ih _).trans ?_
      rw [Text.drop, String.toList_ofList]
      exact List.drop_suffix _ _

def documentOf (source : Source) : Document := ⟨source.path, .ofText "//" source.content⟩

theorem tidy_codeAt (source : Source) (line : Nat) :
    Text.Tidy ((documentOf source).listing.codeAt line).toList := by
  change Text.Tidy (((Text.lines source.content).map codeOf).getD line "").toList
  rw [List.getD_eq_getElem?_getD, List.getElem?_map]
  cases hraw : (Text.lines source.content)[line]? with
  | none => exact ⟨List.not_mem_nil, by simp⟩
  | some raw =>
    constructor
    · intro hmem
      have hraw := List.mem_of_getElem? hraw
      exact Text.newline_not_mem_of_mem_lines hraw (mem_of_mem_codeOf hmem)
    · intro hlast
      exact absurd (Text.not_of_getLast?_trimWhere hlast) (by decide)

/-- Each line of a member is an end of a line of code. -/
theorem suffix_of_memberLines (t : Document) {m : Member} (hm : m.start ≤ m.stop) {i : Nat}
    {line : String} (h : (memberLines t m)[i]? = some line) :
    line.toList <:+ (t.listing.codeAt (m.start + i)).toList ∧ m.start + i ≤ m.stop := by
  cases i with
  | zero =>
    obtain rfl := Option.some.inj h
    exact ⟨suffix_takeAnnotations _ _, hm⟩
  | succ i =>
    rw [memberLines, List.getElem?_cons_succ, List.getElem?_take] at h
    split at h
    · next hi =>
      rw [List.getElem?_drop, Nat.add_right_comm] at h
      constructor
      · rw [Listing.codeAt, List.getD_eq_getElem?_getD, ← Nat.add_assoc, h]
        exact List.suffix_refl _
      · omega
    · cases h

theorem tidy_of_mem_memberLines (source : Source) {m : Member} (hm : m.start ≤ m.stop) :
    ∀ line ∈ memberLines (documentOf source) m, Text.Tidy line.toList := by
  intro line hline
  obtain ⟨i, hi⟩ := List.mem_iff_getElem?.mp hline
  exact (tidy_codeAt source _).of_suffix (suffix_of_memberLines _ hm hi).1

/-! ## Bodies -/

/-- The name of a member that has a body, and the number of characters of its code before the
body. -/
def body? (t : Document) (owner : String) (m : Member) : Option (String × Nat) :=
  let text := declarationText t.listing m.start
  match m.shape with
  | .getter => (getterHead.find? text).map fun head =>
    (qualify t.path owner (head.group 2), (Text.find? "get" text).getD 0)
  | .method => (methodParts? text false).map fun parts =>
    (qualify t.path owner parts.1, signatureLength 0 false 0 (memberCode t m " ").toList)
  | .constructor => (methodParts? text true).map fun parts =>
    (qualify t.path owner parts.1, signatureLength 0 false 0 (memberCode t m " ").toList)
  | _ => none

/-- What is left of a line of code in the body of a member; lines are counted from 0. The shift is
the number of line breaks in the code of the member before its body. -/
structure BodyPiece where
  name : String
  shift : Nat
  line : Nat
  text : String
  deriving DecidableEq

def BodyPiece.facts (b : BodyPiece) : List Fact := lineFacts b.name (b.line + 1 - b.shift) b.text

def bodyPieces (t : Document) (owner : String) (m : Member) : List BodyPiece :=
  match body? t owner m with
  | none => []
  | some (name, n) =>
    let shift := Text.breaksWithin n (memberLines t m)
    (Text.restLines n (memberLines t m)).zipIdx.map fun p =>
      ⟨name, shift, m.start + shift + p.2, p.1⟩

theorem exists_of_mem_bodyPieces {t : Document} {owner : String} {m : Member} {b : BodyPiece}
    (h : b ∈ bodyPieces t owner m) : ∃ n i, body? t owner m = some (b.name, n) ∧
      b.shift = Text.breaksWithin n (memberLines t m) ∧ b.line = m.start + b.shift + i ∧
      (Text.restLines n (memberLines t m))[i]? = some b.text := by
  rw [bodyPieces] at h
  split at h
  · cases h
  · next name n hbody =>
    obtain ⟨⟨text, i⟩, hmem, rfl⟩ := List.mem_map.mp h
    exact ⟨n, i, hbody, rfl, rfl, List.mk_mem_zipIdx_iff_getElem?.mp hmem⟩

theorem bodyPieces_eq_nil {t : Document} {owner : String} {m : Member}
    (h : body? t owner m = none) : bodyPieces t owner m = [] := by
  rw [bodyPieces, h]

/-- The body is read line by line. -/
theorem bodyFacts_eq (source : Source) {m : Member} (hm : m.start ≤ m.stop) {owner name : String}
    {n : Nat} (h : body? (documentOf source) owner m = some (name, n)) :
    bodyFacts (Text.drop n (memberCode (documentOf source) m "\n")) name (m.start + 1) =
      (bodyPieces (documentOf source) owner m).flatMap BodyPiece.facts := by
  rw [bodyFacts, memberCode_eq, Text.lines_drop_ended (tidy_of_mem_memberLines source hm),
    bodyPieces, h, List.flatMap_map]
  refine List.flatMap_congr fun p _ => ?_
  -- the shift is in the line of the piece and not in the number that the line is given
  have hnumber (shift : Nat) : m.start + shift + p.2 + 1 - shift = m.start + 1 + p.2 := by omega
  rw [BodyPiece.facts, hnumber]

/-- Where a piece of the body of a member stands. -/
structure BodyPiece.Lies (t : Document) (owner : String) (m : Member) (b : BodyPiece) : Prop where
  suffix : b.text.toList <:+ (t.listing.codeAt b.line).toList
  start_le : m.start + b.shift ≤ b.line
  le_stop : b.line ≤ m.stop
  breaks : ∃ n, body? t owner m = some (b.name, n) ∧
    b.shift = ((memberCode t m "\n").toList.take n).count '\n' ∧
    (b.shift = 0 ↔ n ≤ (declarationText t.listing m.start).toList.length)

theorem lies_of_mem_bodyPieces (source : Source) {m : Member} (hm : m.start ≤ m.stop)
    {owner : String} {b : BodyPiece} (hb : b ∈ bodyPieces (documentOf source) owner m) :
    b.Lies (documentOf source) owner m := by
  obtain ⟨n, i, hbody, hshift, hline, htext⟩ := exists_of_mem_bodyPieces hb
  obtain ⟨line, hget, hpiece⟩ := Text.exists_line_of_restLines
    (fun line hline => (tidy_of_mem_memberLines source hm line hline).1) htext
  obtain ⟨hsuffix, hstop⟩ := suffix_of_memberLines (documentOf source) hm hget
  rw [← hshift, ← Nat.add_assoc, ← hline] at hsuffix hstop
  refine ⟨hpiece.trans hsuffix, by omega, hstop, n, hbody, ?_, ?_⟩
  · rw [hshift, Text.breaksWithin, memberCode_eq, Text.toList_join_ended]
  · have hfirst := (tidy_of_mem_memberLines source hm _ List.mem_cons_self).1
    rw [hshift, memberLines, Text.breaksWithin_cons hfirst]
    split
    · next hn => simp [hn]
    · next hn => simp [hn]

/-- The body of a getter is taken to begin on its first line. -/
theorem BodyPiece.Lies.shift_eq_zero {t : Document} {owner : String} {m : Member} {b : BodyPiece}
    (h : b.Lies t owner m) (hshape : m.shape = .getter) : b.shift = 0 := by
  obtain ⟨n, hbody, -, hzero⟩ := h.breaks
  rw [hzero]
  simp only [body?, hshape, Option.map_eq_some_iff, Prod.mk.injEq] at hbody
  -- the word is looked for on the first line alone
  obtain ⟨head, -, -, rfl⟩ := hbody
  cases hfind : Text.find? "get" (declarationText t.listing m.start) with
  | none => exact Nat.zero_le _
  | some i => exact (Text.le_of_findChars? hfind).trans (Nat.zero_add _).le

/-! ## What the lines of a body state -/

/-- A fact that relates a source on a line to something that stands in a text. -/
def RelatesIn (text source : String) (line : Nat) (f : Fact) : Prop :=
  ∃ target kind properties, f = .relate source target kind line properties ∧
    Text.Occurs target text ∧ ∀ e ∈ properties, e.1 ≠ "line_number"

section Relating

variable {text source target : String} {kind : RelationKind} {line : Nat}

theorem relatesIn_edge (h : Text.Occurs target text) :
    RelatesIn text source line (.edge source target kind line) :=
  ⟨target, kind, [], rfl, h, fun _ he => nomatch he⟩

theorem occurs_of_mem_names {name reference : String} (h : name ∈ TypeRef.names reference) :
    Text.Occurs name reference := by
  obtain ⟨hmem, -⟩ := List.mem_filter.mp h
  obtain ⟨m, hm, rfl⟩ := List.mem_map.mp hmem
  exact (Text.occurs_trimWhere _ _).trans (Regex.within_of_mem_findAll hm).1

theorem relatesIn_typeFacts {types : TypeSystem} {reference : String}
    (h : Text.Occurs reference text) :
    ∀ f ∈ typeFacts types source reference kind line, RelatesIn text source line f := by
  rw [typeFacts, List.forall_mem_append, List.forall_mem_map, List.forall_mem_map]
  constructor
  · intro name hname
    have hnamed := (TypeRef.mem_names_of_outer (Option.mem_toList.mp hname)).1
    exact relatesIn_edge ((occurs_of_mem_names hnamed).trans h)
  · intro name hname
    have hnamed := (TypeRef.mem_names_of_mem_arguments hname).1
    exact relatesIn_edge ((occurs_of_mem_names hnamed).trans h)

theorem occurs_callee {ignored : List String} {c : Code.Call} (h : c ∈ Code.calls ignored text) :
    Text.Occurs c.callee text := by
  obtain ⟨m, hm, hcall⟩ := List.mem_filterMap.mp h
  dsimp only at hcall
  split at hcall
  · cases hcall
  · split at hcall
    · cases hcall
    · cases hcall
      exact (Regex.within_of_mem_findAll hm).2 2

theorem relatesIn_callFacts : ∀ f ∈ callFacts text source line, RelatesIn text source line f := by
  rw [callFacts, List.forall_mem_flatMap]
  intro c hc
  dsimp only
  split
  · exact relatesIn_typeFacts (occurs_callee hc)
  · rw [List.forall_mem_singleton]
    refine ⟨c.callee, .calls, _, rfl, occurs_callee hc, ?_⟩
    rw [List.forall_mem_map]
    intro receiver _ hkey
    exact absurd hkey (by decide : "receiver" ≠ "line_number")

/-- What a line states is about the member, and the line names what it is related to. -/
theorem relatesIn_lineFacts : ∀ f ∈ lineFacts source line text, RelatesIn text source line f := by
  simp only [lineFacts, List.forall_mem_append, List.forall_mem_map, List.forall_mem_flatMap]
  refine ⟨⟨⟨?_, ?_⟩, ?_⟩, relatesIn_callFacts⟩
  · intro m hm
    have hgroup := (Regex.within_of_find? (Option.mem_toList.mp hm)).2 1
    have hbase : Text.Occurs (TypeRef.baseName (m.group 1)) (m.group 1) :=
      (Text.occurs_trimWhere _ _).trans (Text.occurs_beforeFirst _ _)
    exact relatesIn_edge (hbase.trans hgroup)
  · intro m hm
    exact relatesIn_edge ((Regex.within_of_mem_findAll hm).2 1)
  · intro m hm
    exact relatesIn_typeFacts ((Regex.within_of_mem_findAll hm).2 1)

end Relating

def BodyPiece.relations (place : Place) (b : BodyPiece) : List Relation := statements place b.facts

/-- What a piece of the body of a member states is about the member, and stands on the line of the
piece. The number that it is given is that of a line of the member, as many lines above as the body
is shifted. -/
structure BodyPiece.Gives (t : Document) (m : Member) (b : BodyPiece) (rel : Relation) : Prop where
  source_eq : rel.source = b.name
  target_occurs : Text.Occurs rel.target (t.listing.codeAt b.line)
  number : ∃ number, rel.properties.get? "line_number" = some (.nat number) ∧
    m.start + 1 ≤ number ∧ number ≤ m.stop + 1 ∧ number + b.shift = b.line + 1

theorem BodyPiece.Lies.gives {t : Document} {owner : String} {m : Member} {b : BodyPiece}
    (h : b.Lies t owner m) {place : Place} {rel : Relation} (hrel : rel ∈ b.relations place) :
    b.Gives t m rel := by
  obtain ⟨f, hf, hstates⟩ := List.mem_filterMap.mp hrel
  obtain ⟨target, kind, properties, rfl, htarget, hkeys⟩ := relatesIn_lineFacts f hf
  obtain rfl := Option.some.inj hstates
  have hstart := h.start_le
  have hstop := h.le_stop
  refine ⟨source_relation _ _ _ _ _, ?_, b.line + 1 - b.shift,
    get?_line_relation _ _ _ _ _ hkeys, by omega, by omega, by omega⟩
  rw [target_relation]
  exact htarget.trans h.suffix.isInfix

/-! ## What is stated outside of bodies -/

/-- The kinds of relations that a body states by what it does. -/
def bodyKinds : List RelationKind := [.calls, .throws, .catches, .uses]

/-- Facts of which none states a relation of these kinds. -/
def Bodiless (stated : List Fact) : Prop := ∀ f ∈ stated, ∀ kind ∈ bodyKinds, f.kind? ≠ some kind

namespace Bodiless

variable {stated more : List Fact}

theorem nil : Bodiless [] := fun _ hf => nomatch hf

theorem append (h : Bodiless stated) (hmore : Bodiless more) : Bodiless (stated ++ more) :=
  List.forall_mem_append.mpr ⟨h, hmore⟩

theorem flatMap {α : Type} {items : List α} {g : α → List Fact} (h : ∀ x ∈ items, Bodiless (g x)) :
    Bodiless (items.flatMap g) :=
  List.forall_mem_flatMap.mpr h

theorem getD_map {α : Type} (item : Option α) {g : α → List Fact} (h : ∀ x, Bodiless (g x)) :
    Bodiless ((item.map g).getD []) := by
  cases item with
  | none => exact nil
  | some x => exact h x

theorem map {α : Type} {kind : RelationKind} (hkind : kind ∉ bodyKinds) {items : List α}
    {g : α → Fact} (hg : ∀ x, (g x).kind? = some kind) : Bodiless (items.map g) := by
  refine List.forall_mem_map.mpr fun x _ other hother heq => ?_
  obtain rfl := Option.some.inj ((hg x).symm.trans heq)
  exact hkind hother

theorem declare (t : Document) (kind : ElementKind) (name : String) (m : Member) (owner : String)
    (tags : List String) : Bodiless (Dart.declare t kind name m owner tags) := by
  refine List.forall_mem_cons.mpr ⟨?_, ?_⟩
  · rintro _ hbody ⟨⟩
    exact absurd hbody (by decide)
  · exact map (by decide : RelationKind.hasAttribute ∉ bodyKinds) fun _ => rfl

theorem typeFacts (types : TypeSystem) (source reference : String) {kind : RelationKind}
    (line : Nat) (hkind : kind ∉ bodyKinds) :
    Bodiless (CodeSurvey.typeFacts types source reference kind line) :=
  (map hkind fun _ => rfl).append
    (map (by decide : RelationKind.usesGeneric ∉ bodyKinds) fun _ => rfl)

theorem parameterFacts (fields : FieldTypes) (owner name : String) (isConstructor : Bool)
    (line : Nat) (parameter : String) :
    Bodiless (Dart.parameterFacts fields owner name isConstructor line parameter) := by
  unfold Dart.parameterFacts
  cases parameter? fields parameter with
  | none => exact nil
  | some p =>
    refine (typeFacts _ _ _ _ (by decide)).append ?_
    cases isConstructor with
    | false => exact nil
    | true => exact map (by decide : RelationKind.injects ∉ bodyKinds) fun _ => rfl

theorem fieldFacts (t : Document) (owner : String) (m : Member) :
    Bodiless (Dart.fieldFacts t owner m).1 := by
  unfold Dart.fieldFacts
  split
  · exact nil
  · next head _ =>
    cases head.group? 2 with
    | none => exact declare _ _ _ _ _ _
    | some type => exact (declare _ _ _ _ _ _).append (typeFacts _ _ _ _ (by decide))

end Bodiless

/-- A method or constructor is stated by its head and by its body. -/
theorem methodFacts_eq (source : Source) (owner : String) (fields : FieldTypes)
    (isConstructor : Bool) {m : Member} (hm : m.start ≤ m.stop)
    (hbody : body? (documentOf source) owner m =
      (methodParts? (declarationText (documentOf source).listing m.start) isConstructor).map
        fun parts => (qualify (documentOf source).path owner parts.1,
          signatureLength 0 false 0 (memberCode (documentOf source) m " ").toList)) :
    ∃ before, Bodiless before ∧ methodFacts (documentOf source) owner fields isConstructor m =
      before ++ (bodyPieces (documentOf source) owner m).flatMap BodyPiece.facts := by
  unfold methodFacts
  cases hparts :
    methodParts? (declarationText (documentOf source).listing m.start) isConstructor with
  | none =>
    rw [hparts] at hbody
    exact ⟨[], .nil, by rw [bodyPieces_eq_nil hbody]; rfl⟩
  | some parts =>
    rw [hparts] at hbody
    rw [← bodyFacts_eq source hm hbody]
    refine ⟨_, ?_, rfl⟩
    refine ((Bodiless.declare _ _ _ _ _ _).append ?_).append ?_
    · exact .flatMap fun _ _ => .parameterFacts _ _ _ _ _ _
    · exact .getD_map _ fun _ => .typeFacts _ _ _ _ (by decide)

/-- A getter is stated by its head and by its body. -/
theorem getterFacts_eq (source : Source) (owner : String) {m : Member} (hm : m.start ≤ m.stop)
    (hshape : m.shape = .getter) :
    ∃ before, Bodiless before ∧ getterFacts (documentOf source) owner m =
      before ++ (bodyPieces (documentOf source) owner m).flatMap BodyPiece.facts := by
  unfold getterFacts
  dsimp only
  cases hhead : getterHead.find? (declarationText (documentOf source).listing m.start) with
  | none =>
    have hbody : body? (documentOf source) owner m = none := by simp [body?, hshape, hhead]
    exact ⟨[], .nil, by rw [bodyPieces_eq_nil hbody]; rfl⟩
  | some head =>
    have hbody : body? (documentOf source) owner m =
        some (qualify (documentOf source).path owner (head.group 2),
          (Text.find? "get" (declarationText (documentOf source).listing m.start)).getD 0) := by
      simp [body?, hshape, hhead]
    rw [← bodyFacts_eq source hm hbody]
    refine ⟨_, ?_, rfl⟩
    exact (Bodiless.declare _ _ _ _ _ _).append
      (.getD_map _ fun _ => .typeFacts _ _ _ _ (by decide))

/-- Other than by its body, a member states nothing of the kinds of bodies. -/
theorem memberFacts_eq (source : Source) (owner : String) (fields : FieldTypes) {m : Member}
    (hm : m.start ≤ m.stop) :
    ∃ before, Bodiless before ∧ memberFacts (documentOf source) owner fields m =
      before ++ (bodyPieces (documentOf source) owner m).flatMap BodyPiece.facts := by
  unfold memberFacts
  cases hshape : m.shape with
  | imports target =>
    have hbody : body? (documentOf source) owner m = none := by simp [body?, hshape]
    refine ⟨[.edge (documentOf source).path target .imports (m.start + 1)], ?_, ?_⟩
    · rw [Bodiless, List.forall_mem_singleton]
      rintro _ hkind ⟨⟩
      exact absurd hkind (by decide)
    · rw [bodyPieces_eq_nil hbody]
      rfl
  | type | field =>
    have hbody : body? (documentOf source) owner m = none := by simp [body?, hshape]
    exact ⟨[], .nil, by rw [bodyPieces_eq_nil hbody]; rfl⟩
  | constructor => exact methodFacts_eq source owner fields true hm (by simp only [body?, hshape])
  | getter => exact getterFacts_eq source owner hm hshape
  | method => exact methodFacts_eq source owner fields false hm (by simp only [body?, hshape])

/-! ## The members of a source -/

def headStatement (t : Document) (owner : String) (m : Member) : List Fact :=
  if m.shape = .type then
    ((typeHead.find? (declarationText t.listing m.start)).map (headFacts t owner m)).getD []
  else []

def Range.ownFacts (t : Document) (r : Range) (m : Member) : List Fact :=
  (if m.shape = .field then (fieldFacts t r.owner m).1 else []) ++ headStatement t r.owner m ++
    memberFacts t r.owner (r.fieldTypes t) m

section Reading

variable {t : Document} {r : Range} {f : Fact}

theorem mem_laterFacts {owner : String} {types : FieldTypes} {m : Member} :
    f ∈ laterFacts t owner types m ↔
      (f ∈ headStatement t owner m ∨ f ∈ memberFacts t owner types m) ∨
        m.shape = .type ∧ ∃ head, typeHead.find? (declarationText t.listing m.start) = some head ∧
          f ∈ rangeFacts t (typeName t owner head) (m.start + 1) m.stop := by
  unfold laterFacts headStatement
  by_cases htype : m.shape = .type
  · -- a type states nothing as another member would
    have hnone : memberFacts t owner types m = [] := by rw [memberFacts, htype]
    rw [if_pos htype, if_pos htype, hnone]
    cases hhead : typeHead.find? (declarationText t.listing m.start) with
    | none => simp
    | some head => simp [htype]
  · simp [htype]

/-- A range states what its members state, and what is inside of its types. -/
theorem mem_rangeFacts :
    f ∈ rangeFacts t r.owner r.start r.stop ↔
      (∃ m ∈ r.members t, f ∈ r.ownFacts t m) ∨
        ∃ inner, Enters t inner r ∧ f ∈ rangeFacts t inner.owner inner.start inner.stop := by
  rw [rangeFacts_eq, List.mem_append, List.mem_flatMap, List.mem_flatMap]
  constructor
  · rintro (⟨m, hm, hf⟩ | ⟨m, hm, hf⟩)
    · obtain ⟨hm, hfield⟩ := List.mem_filter.mp hm
      refine .inl ⟨m, hm, ?_⟩
      simp [Range.ownFacts, of_decide_eq_true hfield, hf]
    · rcases mem_laterFacts.mp hf with hown | ⟨htype, head, hhead, hf⟩
      · refine .inl ⟨m, hm, ?_⟩
        rw [Range.ownFacts, List.append_assoc, List.mem_append, List.mem_append]
        exact .inr hown
      · exact .inr ⟨_, ⟨m, hm, htype, head, hhead, rfl⟩, hf⟩
  · rintro (⟨m, hm, hf⟩ | ⟨_, ⟨m, hm, htype, head, hhead, rfl⟩, hf⟩)
    · rw [Range.ownFacts, List.append_assoc, List.mem_append, List.mem_append] at hf
      rcases hf with hf | hown
      · split at hf
        · next hfield => exact .inl ⟨m, List.mem_filter.mpr ⟨hm, decide_eq_true hfield⟩, hf⟩
        · cases hf
      · exact .inr ⟨m, hm, mem_laterFacts.mpr (.inl hown)⟩
    · exact .inr ⟨m, hm, mem_laterFacts.mpr (.inr ⟨htype, head, hhead, hf⟩)⟩

def wholeRange (t : Document) : Range := ⟨t.path, 0, t.listing.code.length⟩

/-- The ranges that are read: the whole file, and those inside of the types found. -/
inductive IsRead (t : Document) : Range → Prop
  | file : IsRead t (wholeRange t)
  | inside {inner outer : Range} (h : IsRead t outer) (henters : Enters t inner outer) :
      IsRead t inner

/-- The source has a member, and this is its owner. -/
def HasMember (t : Document) (owner : String) (m : Member) : Prop :=
  ∃ r, IsRead t r ∧ r.owner = owner ∧ m ∈ r.members t

theorem IsRead.exists_own (h : IsRead t r) (hf : f ∈ rangeFacts t r.owner r.start r.stop) :
    ∃ inner, IsRead t inner ∧ ∃ m ∈ inner.members t, f ∈ inner.ownFacts t m := by
  -- the types of a range are entered one within the other, which comes to an end
  induction r using (wellFounded_enters t).induction with
  | _ r ih =>
    rcases mem_rangeFacts.mp hf with hown | ⟨inner, henters, hf⟩
    · exact ⟨r, h, hown⟩
    · exact ih inner henters (h.inside henters) hf

theorem IsRead.mem_file (h : IsRead t r) (hf : f ∈ rangeFacts t r.owner r.start r.stop) :
    f ∈ rangeFacts t t.path 0 t.listing.code.length := by
  induction h with
  | file => exact hf
  | inside h henters ih => exact ih (mem_rangeFacts.mpr (.inr ⟨_, henters, hf⟩))

/-- A source states what its members state. -/
theorem mem_file_iff :
    f ∈ rangeFacts t t.path 0 t.listing.code.length ↔
      ∃ r, IsRead t r ∧ ∃ m ∈ r.members t, f ∈ r.ownFacts t m :=
  ⟨IsRead.file.exists_own, fun ⟨_, hread, hown⟩ => hread.mem_file (mem_rangeFacts.mpr (.inl hown))⟩

end Reading

/-- What is stated of the kinds of bodies is stated by pieces of bodies and by heads of types. -/
theorem mem_ownFacts (source : Source) {r : Range} {m : Member}
    (hm : m ∈ r.members (documentOf source)) {f : Fact} {kind : RelationKind}
    (hkind : kind ∈ bodyKinds) (hf : f.kind? = some kind) :
    f ∈ r.ownFacts (documentOf source) m ↔
      (∃ b ∈ bodyPieces (documentOf source) r.owner m, f ∈ b.facts) ∨
        f ∈ headStatement (documentOf source) r.owner m := by
  obtain ⟨before, hbefore, hmember⟩ := memberFacts_eq source r.owner
    (r.fieldTypes (documentOf source)) (bounds_of_mem_members hm).2.1
  have hfield :
      f ∉ if m.shape = .field then (fieldFacts (documentOf source) r.owner m).1 else [] := by
    intro hmem
    split at hmem
    · exact Bodiless.fieldFacts _ _ _ f hmem kind hkind hf
    · cases hmem
  have hnone : f ∉ before := fun hmem => hbefore f hmem kind hkind hf
  simp only [Range.ownFacts, hmember, List.mem_append, List.mem_flatMap, hfield, hnone, false_or]
  exact or_comm

theorem mem_facts_iff (source : Source) {f : Fact} {kind : RelationKind} (hkind : kind ∈ bodyKinds)
    (hf : f.kind? = some kind) :
    f ∈ facts source.path source.content ↔
      ∃ owner m, HasMember (documentOf source) owner m ∧
        ((∃ b ∈ bodyPieces (documentOf source) owner m, f ∈ b.facts) ∨
          f ∈ headStatement (documentOf source) owner m) := by
  refine (mem_file_iff (t := documentOf source)).trans ?_
  constructor
  · rintro ⟨r, hread, m, hm, hown⟩
    exact ⟨r.owner, m, ⟨r, hread, rfl, hm⟩, (mem_ownFacts source hm hkind hf).mp hown⟩
  · rintro ⟨_, m, ⟨r, hread, rfl, hm⟩, hstated⟩
    exact ⟨r, hread, m, hm, (mem_ownFacts source hm hkind hf).mpr hstated⟩

section Survey

variable (settings : Settings) (fs : FileSystem) {source : Source}

theorem relations_survey (hlive : source.cancelled = false) :
    (survey settings fs source).relations =
      statements (source.place settings fs) (facts source.path source.content) := by
  simp only [survey, hlive]
  exact (Report.relations_detect _ _ _ _).trans (Report.relations_recordAll _ _ _)

/-- The relations by which a survey tells what bodies do come from the pieces of the bodies of
members, apart from those that the heads of types state. Each piece is the end of a line of its
member, and what it states is given a number that is too small by the line breaks before the body.
So the number is that of the line if and only if the body begins on the first line of the member. -/
theorem body_relations_shifted (hlive : source.cancelled = false) :
    (∀ rel : Relation, rel.kind ∈ bodyKinds →
      (rel ∈ (survey settings fs source).relations ↔
        ∃ owner m, HasMember (documentOf source) owner m ∧
          ((∃ b ∈ bodyPieces (documentOf source) owner m,
              rel ∈ b.relations (source.place settings fs)) ∨
            rel ∈ statements (source.place settings fs)
              (headStatement (documentOf source) owner m)))) ∧
    ∀ owner m, HasMember (documentOf source) owner m →
      ∀ b ∈ bodyPieces (documentOf source) owner m,
        b.Lies (documentOf source) owner m ∧ (m.shape = .getter → b.shift = 0) ∧
          ∀ rel ∈ b.relations (source.place settings fs), b.Gives (documentOf source) m rel := by
  constructor
  · intro rel hkind
    have hstated {f : Fact} (hrel : f.relation? (source.place settings fs) = some rel) :
        f.kind? = some rel.kind := by
      rw [← f.map_kind_relation? (source.place settings fs), hrel, Option.map_some]
    simp only [relations_survey settings fs hlive, BodyPiece.relations, statements,
      List.mem_filterMap]
    constructor
    · rintro ⟨f, hf, hrel⟩
      obtain ⟨owner, m, hm, ⟨b, hb, hf⟩ | hf⟩ :=
        (mem_facts_iff source hkind (hstated hrel)).mp hf
      · exact ⟨owner, m, hm, .inl ⟨b, hb, f, hf, hrel⟩⟩
      · exact ⟨owner, m, hm, .inr ⟨f, hf, hrel⟩⟩
    · rintro ⟨owner, m, hm, ⟨b, hb, f, hf, hrel⟩ | ⟨f, hf, hrel⟩⟩
      · have hmem := (mem_facts_iff source hkind (hstated hrel)).mpr
          ⟨owner, m, hm, .inl ⟨b, hb, hf⟩⟩
        exact ⟨f, hmem, hrel⟩
      · have hmem := (mem_facts_iff source hkind (hstated hrel)).mpr ⟨owner, m, hm, .inr hf⟩
        exact ⟨f, hmem, hrel⟩
  · rintro owner m ⟨r, hread, rfl, hm⟩ b hb
    have hlies := lies_of_mem_bodyPieces source (bounds_of_mem_members hm).2.1 hb
    exact ⟨hlies, hlies.shift_eq_zero, fun rel hrel => hlies.gives hrel⟩

end Survey

/-- A class with a getter, and with a method whose parameters stand on a line of their own. -/
def cartSource : Source where
  path := "lib/cart.dart"
  content := Text.joinLines [
    "class Cart \x7b", "  int get total => sum(items);", "  @override", "  void save(",
    "    int id,", "  ) \x7b", "    store(id);", "  \x7d", "\x7d"]

def saveMember : Member := ⟨.method, 3, 7, [("override", 3)]⟩

def savePiece : BodyPiece := ⟨"Cart.save", 2, 6, "store(id);"⟩

theorem hasMember_cart : HasMember (documentOf cartSource) "Cart" saveMember := by
  -- together, so that the source is read only once
  have hread : ⟨.type, 0, 8, []⟩ ∈
        (wholeRange (documentOf cartSource)).members (documentOf cartSource) ∧
      (typeHead.find? (declarationText (documentOf cartSource).listing 0)).map
        (typeName (documentOf cartSource) (documentOf cartSource).path) = some "Cart" ∧
      saveMember ∈ (Range.mk "Cart" 1 8).members (documentOf cartSource) := by
    decide +kernel
  obtain ⟨htypes, hnamed, hsave⟩ := hread
  obtain ⟨head, hhead, hname⟩ := Option.map_eq_some_iff.mp hnamed
  have henters : Enters (documentOf cartSource) ⟨"Cart", 1, 8⟩
      (wholeRange (documentOf cartSource)) :=
    ⟨_, htypes, rfl, head, hhead, congrArg (Range.mk · 1 8) hname.symm⟩
  exact ⟨_, IsRead.file.inside henters, rfl, hsave⟩

/-- The call on the seventh line is given the fifth. -/
theorem body_relations_shifted_cart :
    cartSource.cancelled = false ∧ HasMember (documentOf cartSource) "Cart" saveMember ∧
      savePiece ∈ bodyPieces (documentOf cartSource) "Cart" saveMember ∧
      savePiece.Lies (documentOf cartSource) "Cart" saveMember ∧
      ∃ rel ∈ (survey {} {} cartSource).relations, rel.kind = .calls ∧ rel.target = "store" ∧
        savePiece.Gives (documentOf cartSource) saveMember rel := by
  obtain ⟨hrelations, hbodies⟩ := @body_relations_shifted {} {} cartSource rfl
  have hpiece : savePiece ∈ bodyPieces (documentOf cartSource) "Cart" saveMember := by
    decide +kernel
  have hcalls : (RelationKind.calls, "store") ∈
      (savePiece.relations (cartSource.place {} {})).map fun rel => (rel.kind, rel.target) := by
    decide +kernel
  obtain ⟨rel, hrel, hcall⟩ := List.mem_map.mp hcalls
  obtain ⟨hkind, htarget⟩ := Prod.mk.inj hcall
  obtain ⟨hlies, -, hgives⟩ := hbodies "Cart" saveMember hasMember_cart savePiece hpiece
  have hmem := (hrelations rel (hkind ▸ by decide)).mpr
    ⟨"Cart", saveMember, hasMember_cart, .inl ⟨savePiece, hpiece, hrel⟩⟩
  exact ⟨rfl, hasMember_cart, hpiece, hlies, rel, hmem, hkind, htarget, hgives rel hrel⟩

/-- A function whose parameters stand on a line of their own. -/
def saveSource : Source where
  path := "lib/a.dart"
  content := Text.joinLines ["void save(", "  int id,", ") \x7b", "  store(id);", "\x7d", ""]

/-- The call on the fourth line is said to be on the second, where its callee does not occur. -/
theorem call_above_its_line :
    ∃ rel ∈ (survey {} {} saveSource).relations,
      rel.kind ∈ bodyKinds ∧ rel.source = "save" ∧ rel.target = "store" ∧
        (rel.properties.get? "line_number").bind Json.nat? = some 2 ∧
        ¬ Text.Occurs rel.target ((documentOf saveSource).listing.codeAt 1) ∧
        Text.Occurs rel.target ((documentOf saveSource).listing.codeAt 3) := by
  decide +kernel

end Dart

end CodeSurvey
