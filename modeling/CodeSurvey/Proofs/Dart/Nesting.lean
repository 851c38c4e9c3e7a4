import CodeSurvey.Proofs.Regex.Progress
import CodeSurvey.Proofs.Report.Arrangement

/-!
# The nesting of declarations in Dart sources

A range of lines is cut into declarations that stand one after the other, and what a type owns is cut
out of the lines strictly between its first and its last one. So whatever the braces of a source are,
reading it comes to an end, and its declarations are arranged in the source: two of them are apart, or
one lies strictly inside the other.
-/

namespace CodeSurvey.Dart

open Code (Listing)

/-! ## Cutting a range -/

/-- Taking annotations off a text goes on until none is left. -/
theorem find?_takeAnnotations {fuel : Nat} {text : String} (h : text.toList.length ≤ fuel) :
    metadataMark.find? (takeAnnotations fuel text).2 = none := by
  induction fuel generalizing text with
  | zero =>
    have hempty : text.toList = [] := List.length_eq_zero_iff.mp (Nat.le_zero.mp h)
    rw [takeAnnotations, Option.eq_none_iff_forall_ne_some]
    intro m hm
    have hmark := (Regex.prefix_of_find? hm).1
    rw [hempty, List.prefix_nil] at hmark
    exact absurd hmark (by decide)
  | succ fuel ih =>
    rw [takeAnnotations]
    cases hm : metadataMark.find? text with
    | none => exact hm
    | some m =>
      obtain ⟨hmark, hstop⟩ := Regex.prefix_of_find? hm
      apply ih
      have hone : "@".toList.length = 1 := by decide
      have hlength := hmark.length_le
      rw [Text.drop, String.toList_ofList, List.length_drop]
      omega

/-- What declares something has no annotation left before it. -/
theorem find?_declarationText (l : Listing) (line : Nat) :
    metadataMark.find? (declarationText l line) = none :=
  find?_takeAnnotations (String.length_toList ▸ le_rfl)

theorem stop_lt_next_cutAt {l : Listing} {shape : Option Shape} {stop start : Nat}
    {pending : List (String × Nat)} {m : Member}
    (hm : (cutAt l shape stop start pending).member = some m) :
    m.stop < (cutAt l shape stop start pending).next := by
  cases shape with
  | none => cases hm
  | some shape =>
    cases hm
    exact Nat.lt_succ_self _

/-- The cut goes on after the declaration that it has made. -/
theorem stop_lt_next_cut {l : Listing} {type : Option String} {stop start : Nat}
    {pending : List (String × Nat)} {m : Member}
    (hm : (cut l type stop start pending).member = some m) :
    m.stop < (cut l type stop start pending).next := by
  simp only [cut] at hm ⊢
  split at hm
  · cases hm
  · next hdeclares =>
    rw [if_neg hdeclares]
    exact stop_lt_next_cutAt hm

/-- The declarations of a range stand one after the other. -/
theorem members_sorted (l : Listing) (type : Option String) (stop start : Nat)
    (pending : List (String × Nat)) :
    (members l type stop start pending).Pairwise fun a b => a.stop < b.start := by
  fun_induction members l type stop start pending with
  | case1 start pending h c ih =>
    refine List.pairwise_append.mpr ⟨?_, ih, ?_⟩
    · cases c.member with
      | none => exact List.Pairwise.nil
      | some m => exact List.pairwise_singleton _ _
    · intro a ha b hb
      exact (stop_lt_next_cut (Option.mem_toList.mp ha)).trans_le (bounds_of_mem_members hb).1
  | case2 start pending h => exact List.Pairwise.nil

/-! ## Reading a range comes to an end -/

/-- A range of lines that is read for an owner. -/
structure Range where
  owner : String
  start : Nat
  stop : Nat

def Range.members (t : Document) (r : Range) : List Member :=
  Dart.members t.listing (classOf? t r.owner) r.stop r.start []

/-- Reading the outer range goes on to the inner one: the lines inside of one of its types. -/
def Enters (t : Document) (inner outer : Range) : Prop :=
  ∃ m ∈ outer.members t, m.shape = .type ∧
    ∃ head, typeHead.find? (declarationText t.listing m.start) = some head ∧
      inner = ⟨typeName t outer.owner head, m.start + 1, m.stop⟩

/-- There is no endless way down into ranges. -/
theorem wellFounded_enters (t : Document) : WellFounded (Enters t) := by
  refine Subrelation.wf ?_ (measure fun r : Range => r.stop - r.start).wf
  rintro _ outer ⟨m, hm, -, head, -, rfl⟩
  have hbounds := bounds_of_mem_members hm
  change m.stop - (m.start + 1) < outer.stop - outer.start
  omega

/-! ## What a member declares -/

variable {t : Document} {owner : String} {m : Member} {stated : List Fact}

theorem spans_outlineOf (kind : ElementKind) (name : String) (hm : m.start ≤ m.stop)
    (hstop : m.stop < t.listing.raw.length) :
    (outlineOf t kind name m).Spans t.listing.raw (m.stop + 1) where
  lastLine_eq := rfl
  firstLine_pos := Nat.le_add_left 1 m.start
  firstLine_le := Nat.succ_le_succ hm
  last_le := hstop
  content_eq := by
    simp only [outlineOf, Listing.span, Nat.add_sub_cancel, Nat.add_sub_add_right]

/-- Facts that declare this member and nothing else. -/
structure Declares (t : Document) (owner : String) (m : Member) (kind : ElementKind)
    (name : String) (stated : List Fact) : Prop where
  draws : Draws stated
  holdings_eq : holdings stated = [⟨owner, outlineOf t kind name m⟩]

theorem declares_declare {kind : ElementKind} {name : String} {tags : List String}
    (h : AllRegular .dart (fun _ => True) [owner] loose stated) :
    Declares t owner m kind name (declare t kind name m owner tags ++ stated) := by
  have hquiet : AllQuiet ((m.annotations.map fun a => Fact.edge name a.1 .hasAttribute a.2) ++
      stated) := by simp [h.quiet]
  constructor
  · exact Draws.declare hquiet
  · refine (holdings_declare hquiet).trans ?_
    rw [Declaration.outline_addTags]
    rfl

theorem declares_headFacts (t : Document) (owner : String) (m : Member) (head : Match) :
    ∃ kind : ElementKind, kind.IsType ∧
      Declares t owner m kind (typeName t owner head) (headFacts t owner m head) :=
  ⟨_, ElementKind.isType_ite _, declares_declare (by simp)⟩

/-- Facts that declare this member or nothing. -/
def MayDeclare (t : Document) (owner : String) (m : Member) (stated : List Fact) : Prop :=
  AllQuiet stated ∨ ∃ kind name, Declares t owner m kind name stated

theorem mayDeclare_of_states (h : States t owner m stated) : MayDeclare t owner m stated := by
  cases h with
  | plain h => exact .inl h.quiet
  | ending h => cases h
  | @declaration d rest hd hkind hdependencies hrest =>
    refine .inr ⟨d.kind, d.name, Draws.declare hrest.quiet, ?_⟩
    rw [holdings_declare hrest.quiet, hd.2]

theorem MayDeclare.draws (h : MayDeclare t owner m stated) : Draws stated := by
  rcases h with hquiet | ⟨kind, name, hdeclares⟩
  · exact .of_quiet hquiet
  · exact hdeclares.draws

/-! ## What a range declares -/

theorem Declares.arranged {kind : ElementKind} {name : String}
    (h : Declares t owner m kind name stated) (hm : m.start ≤ m.stop)
    (hstop : m.stop < t.listing.raw.length) :
    Arranged t.listing.raw owner m.start (m.stop + 1) (holdings stated) := by
  have hspans := spans_outlineOf kind name hm hstop
  rw [h.holdings_eq]
  apply Arranged.single
  · rw [hspans.last_eq]
    exact hspans
  · rfl
  · exact Nat.lt_succ_self m.start
  · exact hspans.last_eq.le

theorem MayDeclare.arranged (h : MayDeclare t owner m stated) (hm : m.start ≤ m.stop)
    (hstop : m.stop < t.listing.raw.length) :
    Arranged t.listing.raw owner m.start (m.stop + 1) (holdings stated) := by
  rcases h with hquiet | ⟨kind, name, hdeclares⟩
  · rw [hquiet.holdings_eq]
    exact Arranged.nil
  · exact hdeclares.arranged hm hstop

/-- What a declaration other than a field states, a type together with what it owns. -/
def laterFacts (t : Document) (owner : String) (types : FieldTypes) (m : Member) : List Fact :=
  if m.shape = .type then
    match typeHead.find? (declarationText t.listing m.start) with
    | none => []
    | some head =>
      headFacts t owner m head ++ rangeFacts t (typeName t owner head) (m.start + 1) m.stop
  else memberFacts t owner types m

def Range.fieldTypes (t : Document) (r : Range) : FieldTypes :=
  (((r.members t).filter (·.shape = .field)).flatMap fun m => (fieldFacts t r.owner m).2).reverse

/-- Fields are stated first, and then the other declarations in order. -/
theorem rangeFacts_eq (t : Document) (r : Range) :
    rangeFacts t r.owner r.start r.stop =
      ((r.members t).filter (·.shape = .field)).flatMap (fun m => (fieldFacts t r.owner m).1) ++
        (r.members t).flatMap (laterFacts t r.owner (r.fieldTypes t)) := by
  rw [rangeFacts, List.flatMap_map, List.flatMap_map]
  congr 1
  conv_rhs => rw [← List.attach_map_subtype_val (r.members t), List.flatMap_map]
  rfl

/-- What a member of a range declares, a type together with what it owns. -/
def memberHoldings (t : Document) (r : Range) (m : Member) : List Holding :=
  (if m.shape = .field then holdings (fieldFacts t r.owner m).1 else []) ++
    holdings (laterFacts t r.owner (r.fieldTypes t) m)

/-- A range declares what its members declare, up to the order. -/
theorem holdings_rangeFacts_perm (t : Document) (r : Range) :
    ((r.members t).flatMap (memberHoldings t r)).Perm
      (holdings (rangeFacts t r.owner r.start r.stop)) := by
  have hfields (all : List Member) :
      (all.flatMap fun m => if m.shape = .field then holdings (fieldFacts t r.owner m).1 else []) =
        (all.filter (·.shape = .field)).flatMap fun m => holdings (fieldFacts t r.owner m).1 := by
    induction all with
    | nil => rfl
    | cons m rest ih =>
      rw [List.flatMap_cons, List.filter_cons, ih]
      by_cases hfield : m.shape = .field
      · simp [hfield]
      · simp [hfield]
  refine (List.flatMap_append_perm (r.members t) _ _).symm.trans (List.Perm.of_eq ?_)
  rw [hfields, rangeFacts_eq, holdings_append, holdings_flatMap, holdings_flatMap]

/-- The declarations of a range are arranged in it. -/
def Range.Arranges (t : Document) (r : Range) : Prop :=
  Draws (rangeFacts t r.owner r.start r.stop) ∧
    Arranged t.listing.raw r.owner r.start r.stop (holdings (rangeFacts t r.owner r.start r.stop))

/-- A declaration other than a field, if the ranges that reading goes on to are arranged. -/
theorem arranged_laterFacts {r : Range} (hstop : r.stop ≤ t.listing.raw.length)
    (hm : m ∈ r.members t)
    (hinner : ∀ inner, Enters t inner r → inner.stop ≤ t.listing.raw.length → inner.Arranges t) :
    Draws (laterFacts t r.owner (r.fieldTypes t) m) ∧
      Arranged t.listing.raw r.owner m.start (m.stop + 1)
        (holdings (laterFacts t r.owner (r.fieldTypes t) m)) := by
  obtain ⟨-, hle, hlt⟩ := bounds_of_mem_members hm
  have hwithin : m.stop < t.listing.raw.length := hlt.trans_le hstop
  unfold laterFacts
  by_cases htype : m.shape = .type
  · rw [if_pos htype]
    cases hhead : typeHead.find? (declarationText t.listing m.start) with
    | none => exact ⟨.of_quiet AllFacts.nil, Arranged.nil⟩
    | some head =>
      obtain ⟨kind, hkind, hdeclares⟩ := declares_headFacts t r.owner m head
      obtain ⟨hdraws, harranged⟩ := hinner ⟨typeName t r.owner head, m.start + 1, m.stop⟩
        ⟨m, hm, htype, head, hhead, rfl⟩ hwithin.le
      refine ⟨hdeclares.draws.append hdraws, ?_⟩
      have hself := hdeclares.arranged hle hwithin
      rw [holdings_append, hdeclares.holdings_eq]
      rw [hdeclares.holdings_eq] at hself
      exact hself.enclose hkind harranged
  · rw [if_neg htype]
    have hmember : MayDeclare t r.owner m (memberFacts t r.owner (r.fieldTypes t) m) :=
      mayDeclare_of_states (states_memberFacts _ m)
    exact ⟨hmember.draws, hmember.arranged hle hwithin⟩

/-- A member of a range, if the ranges that reading goes on to are arranged. -/
theorem arranged_memberHoldings {r : Range} (hstop : r.stop ≤ t.listing.raw.length)
    (hm : m ∈ r.members t)
    (hinner : ∀ inner, Enters t inner r → inner.stop ≤ t.listing.raw.length → inner.Arranges t) :
    Arranged t.listing.raw r.owner m.start (m.stop + 1) (memberHoldings t r m) := by
  obtain ⟨-, hle, hlt⟩ := bounds_of_mem_members hm
  unfold memberHoldings
  by_cases hfield : m.shape = .field
  · have hnone : laterFacts t r.owner (r.fieldTypes t) m = [] := by
      simp [laterFacts, memberFacts, hfield]
    rw [if_pos hfield, hnone, holdings_nil, List.append_nil]
    exact (mayDeclare_of_states (states_fieldFacts hfield)).arranged hle (hlt.trans_le hstop)
  · rw [if_neg hfield, List.nil_append]
    exact (arranged_laterFacts hstop hm hinner).2

/-- Every range of the lines of a source is arranged, whatever its owner. -/
theorem arranges_range (t : Document) (r : Range) (hstop : r.stop ≤ t.listing.raw.length) :
    r.Arranges t := by
  -- induction on the ranges that reading goes on to
  induction r using (wellFounded_enters t).induction with
  | _ r hinner =>
    constructor
    · rw [rangeFacts_eq]
      apply Draws.append
      · refine Draws.flatMap fun m hm => (mayDeclare_of_states (states_fieldFacts ?_)).draws
        exact of_decide_eq_true (List.mem_filter.mp hm).2
      · exact Draws.flatMap fun m hm => (arranged_laterFacts hstop hm hinner).1
    · refine Arranged.perm ?_ (holdings_rangeFacts_perm t r)
      refine Arranged.flatMap (·.start) (·.stop + 1) ?_ ?_ ?_
      · intro m hm
        have hbounds := bounds_of_mem_members hm
        omega
      · exact (members_sorted _ _ _ _ _).imp Nat.succ_le_of_lt
      · intro m hm
        exact arranged_memberHoldings hstop hm hinner

/-! ## The whole source -/

section Survey

variable (settings : Settings) (fs : FileSystem) (source : Source)

/-- The declarations of a whole source are arranged in it, and a report holds them. -/
theorem exists_arranged_survey :
    ∃ hs, (survey settings fs source).Holds hs ∧
      Arranged (Text.lines source.content) source.path 0 (Text.lines source.content).length hs := by
  have hlength : (Listing.ofText "//" source.content).code.length =
      (Text.lines source.content).length := by simp [Listing.ofText]
  obtain ⟨hdraws, harranged⟩ := arranges_range ⟨source.path, .ofText "//" source.content⟩
    ⟨source.path, 0, (Listing.ofText "//" source.content).code.length⟩ hlength.le
  unfold survey
  dsimp only
  split
  · exact ⟨[], (Report.Holds.opening _ _ _).fail _, Arranged.nil⟩
  · refine ⟨_, Report.Holds.detect ?_ _ _ _, harranged.widen le_rfl hlength.le⟩
    exact (Report.Holds.opening _ _ _).recordAll hdraws (owned_facts source.path source.content)

/-- Declarations are laminar in every source, whatever its braces are. Each element other than the
file covers lines of the source and holds their text; two of them are apart, or one lies strictly
inside the other. An element that no other encloses is defined by the file, and any other by the type
whose block is the closest around it. Reading a source comes to an end: there is no endless way into
types within types, and annotations are taken off until none is left. -/
theorem spans_laminar :
    (∀ o ∈ (survey settings fs source).blocks, o.Spans (Text.lines source.content) o.last) ∧
      (survey settings fs source).blocks.Pairwise Outline.Laminar ∧
      List.Forall₂
        (fun o rel => rel.target = o.name ∧
          o.BelongsTo rel.source source.path (survey settings fs source).blocks)
        (survey settings fs source).blocks ((survey settings fs source).relationsOf .defines) ∧
      WellFounded (Enters ⟨source.path, .ofText "//" source.content⟩) ∧
      ∀ line, metadataMark.find? (declarationText (.ofText "//" source.content) line) = none := by
  obtain ⟨hs, hholds, harranged⟩ := exists_arranged_survey settings fs source
  refine ⟨?_, ?_, ?_, wellFounded_enters _, find?_declarationText _⟩
  · exact harranged.spans_blocks hholds
  · exact harranged.laminar_blocks hholds
  · exact harranged.belongsTo_definitions hholds

-- a brace that is never closed ends the class with the file, and the method has no room left in it
example : (survey {} {}
    { path := "a.dart", content := "class A \x7b\n  int x;\n  void f() \x7b" }).blocks.map
      (fun o => (o.name, o.firstLine, o.last)) = [("A", 1, 3), ("A.x", 2, 2)] := by decide +kernel

end Survey

end CodeSurvey.Dart
