import CodeSurvey.Proofs.Ownership.Definitions

/-!
# Names and the nesting of declarations

The declarations of a source stand somewhere in it, some of them inside of others. A layout says where,
without regard to the names in a report. The name of a declaration then follows from what it calls
itself and from the innermost type around it: the name of that type comes first. Only a type that has
the path of the file for its name is not told from the file.
-/

namespace CodeSurvey

/-! ## Layouts -/

/-- Where the declarations of a source stand. -/
structure Layout where
  /-- The places at which something may be declared. -/
  Spot : Type
  /-- The places of the declarations, in the order of the report. -/
  spots : List Spot
  /-- What the declaration at a place calls itself. -/
  Calls : Spot → String → Prop
  /-- The first place lies inside of the type that is declared at the second one. -/
  Inside : Spot → Spot → Prop

namespace Layout

variable (l : Layout) (entries : List (l.Spot × Imprint))

/-- No type among the entries stands around a place. -/
def Outermost (x : l.Spot) : Prop := ∀ y ∈ entries, y.2.kind.IsType → ¬ l.Inside x y.1

/-- An entry is the innermost type among the entries around a place. -/
def Innermost (x : l.Spot) (y : l.Spot × Imprint) : Prop :=
  y ∈ entries ∧ y.2.kind.IsType ∧ l.Inside x y.1 ∧
    ∀ z ∈ entries, z.2.kind.IsType → l.Inside x z.1 → ¬ l.Inside z.1 y.1

/-- Declarations are named by what they call themselves, each after the name of the innermost type
around it, unless that type has the path for its name. -/
def Named (path : String) : Prop :=
  ∀ x ∈ entries, ∃ plain, l.Calls x.1 plain ∧
    ((l.Outermost entries x.1 ∧ x.2.name = plain) ∨
      ∃ y, l.Innermost entries x.1 y ∧
        x.2.name = if y.2.name = path then plain else y.2.name ++ "." ++ plain)

/-- The elements of a report other than the file are the declarations of a layout, in order, and they
are named by where they stand. -/
def Names (path : String) (r : Report) : Prop :=
  l.spots.length = r.imprints.length ∧ l.Named (l.spots.zip r.imprints) path

variable {l entries}

theorem names_of_entries {path : String} {r : Report} (hspots : l.spots = entries.map (·.1))
    (himprints : r.imprints = entries.map (·.2)) (h : l.Named entries path) : l.Names path r := by
  have hzip : l.spots.zip r.imprints = entries := by
    rw [hspots, himprints]
    exact (List.zip_of_prod rfl rfl).symm
  refine ⟨by simp [hspots, himprints], ?_⟩
  rw [hzip]
  exact h

end Layout

/-! ## Surveys in steps -/

theorem AllPlain.imprints_eq {facts : List Fact} (h : AllPlain facts) :
    facts.flatMap Fact.imprints = [] :=
  List.flatMap_eq_nil_iff.mpr fun f hf => (h f hf).imprints_eq

theorem Stated.imprints_eq {types : TypeSystem} {makes : String → Prop} {owner : String}
    {declares : Declaration → Prop} {facts : List Fact} (h : Stated types makes owner declares facts) :
    facts.flatMap Fact.imprints = (leading? facts).toList.map (·.imprint) := by
  cases h with
  | plain h => rw [h.plain.imprints_eq, h.plain.leading?_eq, Option.toList_none, List.map_nil]
  | ending h => rfl
  | @declaration d rest hd hkind hdependencies hrest =>
    rw [List.flatMap_cons, hrest.plain.imprints_eq, List.append_nil]
    simp [Fact.imprints, leading?, Declaration.imprint, hkind]

section Steps

variable {Node : Type} (results : Node → List Fact) (nodes : List Node)

/-- The declarations of the steps of a survey, each with its step. -/
def entriesOf : List (Node × Imprint) :=
  nodes.filterMap fun n => (leading? (results n)).map fun d => (n, d.imprint)

/-- The layout of a survey in steps. -/
def Layout.ofSteps (calls : Node → String → Prop) (inside : Node → Node → Prop) : Layout where
  Spot := Node
  spots := nodes.filter fun n => (leading? (results n)).isSome
  Calls := calls
  Inside := inside

/-- The owner of what a step may declare: the innermost type around it, or the file. -/
def OwnedAmong (inside : Node → Node → Prop) (outer owner : String) (n : Node) : Prop :=
  (owner = outer ∧ ∀ p ∈ nodes, (leadingType? (results p)).isSome → ¬ inside n p) ∨
    ∃ p ∈ nodes, leadingType? (results p) = some owner ∧ inside n p ∧
      ∀ q ∈ nodes, (leadingType? (results q)).isSome → inside n q → ¬ inside q p

variable {results nodes} {types : TypeSystem} {makes : Node → String → Prop} {path : String}
  {ownerOf : Node → String} {calls : Node → String → Prop} {declares : Node → Declaration → Prop}

theorem mem_entriesOf {x : Node × Imprint} :
    x ∈ entriesOf results nodes ↔
      x.1 ∈ nodes ∧ ∃ d, leading? (results x.1) = some d ∧ d.imprint = x.2 := by
  obtain ⟨n, i⟩ := x
  simp only [entriesOf, List.mem_filterMap, Option.map_eq_some_iff, Prod.mk.injEq]
  constructor
  · rintro ⟨n', hn', d, hd, rfl, rfl⟩
    exact ⟨hn', d, hd, rfl⟩
  · rintro ⟨hn, d, hd, rfl⟩
    exact ⟨n, hn, d, hd, rfl, rfl⟩

theorem map_fst_entriesOf :
    (entriesOf results nodes).map (·.1) = nodes.filter fun n => (leading? (results n)).isSome := by
  induction nodes with
  | nil => rfl
  | cons n rest ih =>
    rw [List.filter_cons, ← ih]
    cases hn : leading? (results n) <;> simp [entriesOf, hn]

/-- The declarations of steps are what their facts declare. -/
theorem flatMap_imprints
    (h : ∀ n ∈ nodes, Stated types (makes n) (ownerOf n) (declares n) (results n)) :
    (nodes.flatMap results).flatMap Fact.imprints = (entriesOf results nodes).map (·.2) := by
  induction nodes with
  | nil => rfl
  | cons n rest ih =>
    obtain ⟨hn, hrest⟩ := List.forall_mem_cons.mp h
    rw [List.flatMap_cons, List.flatMap_append, hn.imprints_eq, ih hrest]
    cases hd : leading? (results n) <;> simp [entriesOf, hd]

/-- The types among the declarations of steps are those that facts begin with. -/
theorem isSome_leadingType? {x : Node × Imprint} (hx : x ∈ entriesOf results nodes)
    (htype : x.2.kind.IsType) : leadingType? (results x.1) = some x.2.name := by
  obtain ⟨-, d, hd, hd'⟩ := mem_entriesOf.mp hx
  have hkind : d.kind.IsType := by rw [← hd'] at htype; exact htype
  rw [leadingType?, hd, ← hd']
  exact if_pos hkind

theorem exists_entry_of_leadingType? {n : Node} {name : String} (hn : n ∈ nodes)
    (htype : leadingType? (results n) = some name) :
    ∃ i, (n, i) ∈ entriesOf results nodes ∧ i.kind.IsType ∧ i.name = name := by
  obtain ⟨d, hd, hname⟩ := Option.bind_eq_some_iff.mp htype
  split at hname
  · next hkind => exact ⟨d.imprint, mem_entriesOf.mpr ⟨hn, d, hd, rfl⟩, hkind, Option.some.inj hname⟩
  · cases hname

/-- A step keeps its owner when its part of a survey is put after the step that goes into the part: a
type takes the place of the outer owner there. -/
theorem OwnedAmong.enclose {inside : Node → Node → Prop} {part : List Node} {first n : Node}
    {outer owner : String}
    (h : OwnedAmong results part inside ((leadingType? (results first)).getD outer) owner n)
    (hfirst : first ∈ nodes) (hpart : part ⊆ nodes) (hinside : inside n first)
    (haround : ∀ p ∈ nodes, inside n p → p = first ∨ p ∈ part)
    (hself : ¬ inside first first) (houter : ∀ p ∈ part, ¬ inside first p) :
    OwnedAmong results nodes inside outer owner n := by
  rcases h with ⟨howner, hnone⟩ | ⟨p, hp, htype, hp', hclosest⟩
  · cases hs : leadingType? (results first) with
    | none =>
      rw [hs] at howner
      refine .inl ⟨howner, ?_⟩
      intro p hp htype hp'
      rcases haround p hp hp' with rfl | hp
      · rw [hs] at htype
        cases htype
      · exact hnone p hp htype hp'
    | some name =>
      rw [hs] at howner
      refine .inr ⟨first, hfirst, by rw [hs, howner, Option.getD_some], hinside, ?_⟩
      intro q hq htype hq'
      rcases haround q hq hq' with rfl | hq
      · exact hself
      · exact absurd hq' (hnone q hq htype)
  · refine .inr ⟨p, hpart hp, htype, hp', ?_⟩
    intro q hq hqtype hq'
    rcases haround q hq hq' with rfl | hq
    · exact houter p hp
    · exact hclosest q hq hqtype hq'

/-- Steps that declare in the name of the innermost type around them name things by where they
stand. -/
theorem Layout.named_ofSteps {inside : Node → Node → Prop}
    (hstated : ∀ n ∈ nodes, Stated types (makes n) (ownerOf n) (NamedBy path (ownerOf n) (calls n))
      (results n))
    (howner : ∀ n ∈ nodes, OwnedAmong results nodes inside path (ownerOf n) n) :
    (ofSteps results nodes calls inside).Named (entriesOf results nodes) path := by
  intro x hx
  obtain ⟨hn, d, hd, hd'⟩ := mem_entriesOf.mp hx
  obtain ⟨plain, hcalls, hname⟩ : ∃ plain, calls x.1 plain ∧
      x.2.name = qualify path (ownerOf x.1) plain := by
    have hstated := hstated x.1 hn
    generalize results x.1 = facts at hd hstated
    cases hstated with
    | plain h =>
      rw [h.plain.leading?_eq] at hd
      cases hd
    | ending h => cases hd
    | declaration hnamed hkind hdependencies hrest =>
      cases hd
      rw [← hd']
      exact hnamed
  refine ⟨plain, hcalls, ?_⟩
  rcases howner x.1 hn with ⟨hfile, hnone⟩ | ⟨p, hp, htype, hinside, hclosest⟩
  · left
    refine ⟨?_, by rw [hname, hfile, qualify, if_pos rfl]⟩
    intro y hy hkind
    exact hnone y.1 (mem_entriesOf.mp hy).1 (by rw [isSome_leadingType? hy hkind]; rfl)
  · right
    obtain ⟨i, hi, hkind, howner⟩ := exists_entry_of_leadingType? hp htype
    refine ⟨(p, i), ⟨hi, hkind, hinside, ?_⟩, by rw [hname, ← howner, qualify]⟩
    intro z hz hztype
    exact hclosest z.1 (mem_entriesOf.mp hz).1 (by rw [isSome_leadingType? hz hztype]; rfl)

end Steps

/-! ## Reports -/

namespace Report

theorem imprints_recordAll (place : Place) (r : Report) (facts : List Fact) :
    (r.recordAll place facts).imprints = r.imprints ++ facts.flatMap Fact.imprints := by
  induction facts generalizing r with
  | nil => exact (List.append_nil _).symm
  | cons f rest ih =>
    rw [List.flatMap_cons, ← List.append_assoc, ← imprints_record]
    exact ih (r.record place f)

theorem imprints_detect (r : Report) (settings : DetectorSettings) (bank : Bank) (scene : Scene) :
    (r.detect settings bank scene).imprints = r.imprints := by
  obtain ⟨errors, h⟩ := r.detect_eq settings bank scene
  rw [h]
  rfl

theorem imprints_flagSyntaxError (r : Report) (line : Nat) :
    (r.flagSyntaxError line).imprints = r.imprints := by
  have hfile : (r.flagSyntaxError line).marks = r.marks := by
    apply marks_updateFile
    intro d
    rw [Declaration.imprint_note _ _ (by decide), Declaration.imprint_note _ _ (by decide)]
  rw [imprints, hfile, imprints]

end Report

theorem imprints_surveyOfLines (settings : Settings) (fs : FileSystem) (source : Source)
    (language : String) (bank : Bank) (facts : List Fact) :
    (surveyOfLines settings fs source language bank facts).imprints =
      if source.cancelled then [] else facts.flatMap Fact.imprints := by
  unfold surveyOfLines
  dsimp only
  cases source.cancelled with
  | true => rfl
  | false =>
    exact (Report.imprints_detect _ _ _ _).trans (Report.imprints_recordAll _ _ _)

end CodeSurvey
