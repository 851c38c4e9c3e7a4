import CodeSurvey.Proofs.Ownership.Definitions

/-!
# What a report declares, and by whom

A declaration is recorded as an element and as the definition that leads to it from its owner. Unless
facts end blocks, the elements of a report and their definitions are those of the declarations among
its facts, in the same order.
-/

namespace CodeSurvey

/-- The outline of a declaration, with the owner. -/
structure Holding where
  owner : String
  outline : Outline

/-- The declaration that a fact states. -/
def Fact.holding? : Fact → Option Holding
  | declare owner d => some ⟨owner, d.outline⟩
  | _ => none

def holdings (facts : List Fact) : List Holding := facts.filterMap Fact.holding?

@[simp] theorem holdings_nil : holdings [] = [] := rfl

@[simp] theorem holdings_append (facts more : List Fact) :
    holdings (facts ++ more) = holdings facts ++ holdings more := List.filterMap_append

@[simp] theorem holdings_flatMap {α : Type} (items : List α) (g : α → List Fact) :
    holdings (items.flatMap g) = items.flatMap fun x => holdings (g x) := by
  induction items with
  | nil => rfl
  | cons x rest ih => rw [List.flatMap_cons, holdings_append, ih, List.flatMap_cons]

theorem AllQuiet.holdings_eq {facts : List Fact} (h : AllQuiet facts) : holdings facts = [] := by
  refine List.filterMap_eq_nil_iff.mpr ?_
  intro f hf
  cases f with
  | declare owner d => exact (h _ hf).elim
  | relate | inject | close => rfl

/-- A declaration with quiet facts about it declares nothing else. -/
theorem holdings_declare {owner : String} {d : Declaration} {facts : List Fact}
    (h : AllQuiet facts) : holdings (.declare owner d :: facts) = [⟨owner, d.outline⟩] :=
  congrArg (Holding.mk owner d.outline :: ·) h.holdings_eq

/-- What is declared by facts in the order of ownership is no file. -/
theorem Owned.kind_ne_file {known : List String} {facts : List Fact} (h : Owned known facts) :
    ∀ x ∈ holdings facts, x.outline.kind ≠ .file := by
  induction h with
  | nil => simp
  | @cons known f rest hf hrest ih =>
    cases f with
    | declare owner d => exact List.forall_mem_cons.mpr ⟨hf.2, ih⟩
    | relate | inject | close => exact ih

/-! ## Facts that end no blocks -/

/-- Facts that add the outlines of what they declare and change none of those before. -/
def Draws (facts : List Fact) : Prop :=
  ∀ outlines, redrawAll outlines facts = outlines ++ (holdings facts).map (·.outline)

namespace Draws

variable {facts more : List Fact}

theorem of_quiet (h : AllQuiet facts) : Draws facts := by
  intro outlines
  rw [h.redrawAll_eq, h.holdings_eq]
  exact (List.append_nil _).symm

theorem declare {owner : String} {d : Declaration} (h : AllQuiet facts) :
    Draws (.declare owner d :: facts) := by
  intro outlines
  rw [redrawAll_cons, h.redrawAll_eq, holdings_declare h]
  rfl

theorem append (h : Draws facts) (hmore : Draws more) : Draws (facts ++ more) := by
  intro outlines
  rw [redrawAll_append, h, hmore, holdings_append, List.map_append, List.append_assoc]

theorem flatMap {α : Type} {items : List α} {g : α → List Fact} (h : ∀ x ∈ items, Draws (g x)) :
    Draws (items.flatMap g) := by
  induction items with
  | nil => exact of_quiet AllFacts.nil
  | cons x rest ih =>
    rw [List.flatMap_cons]
    exact (h x List.mem_cons_self).append (ih fun y hy => h y (List.mem_cons_of_mem x hy))

end Draws

/-! ## Reports -/

namespace Report

/-- The outlines of the elements other than the file. -/
def blocks (r : Report) : List Outline := r.members.map fun e => e.outline

/-- The elements of a report other than the file, and the definitions that lead to them, are those of
these declarations. -/
structure Holds (r : Report) (hs : List Holding) : Prop where
  blocks_eq : r.blocks = hs.map (·.outline)
  definitions_eq : (r.relationsOf .defines).map (fun rel => (rel.source, rel.target)) =
    hs.map fun h => (h.owner, h.outline.name)

theorem blocks_eq_filter (r : Report) : r.blocks = r.outlines.filter (·.kind ≠ .file) := by
  simp only [blocks, members, outlines, List.filter_map]
  rfl

theorem definitions_record (place : Place) (r : Report) {f : Fact} {known : List String}
    (hf : f.Fits known) :
    ((r.record place f).relationsOf .defines).map (fun rel => (rel.source, rel.target)) =
      (r.relationsOf .defines).map (fun rel => (rel.source, rel.target)) ++
        (holdings [f]).map fun h => (h.owner, h.outline.name) := by
  cases f with
  | declare owner d =>
    simp only [relationsOf, record, relate, addRelation, addElement, List.filter_append,
      List.map_append]
    rfl
  | relate | inject | close =>
    refine (congrArg (List.map _) ?_).trans (List.append_nil _).symm
    exact relationsOf_record_of_plain hf

theorem definitions_recordAll (place : Place) (r : Report) {facts : List Fact}
    {known : List String} (h : Owned known facts) :
    ((r.recordAll place facts).relationsOf .defines).map (fun rel => (rel.source, rel.target)) =
      (r.relationsOf .defines).map (fun rel => (rel.source, rel.target)) ++
        (holdings facts).map fun h => (h.owner, h.outline.name) := by
  induction h generalizing r with
  | nil => exact (List.append_nil _).symm
  | @cons known f rest hf hrest ih =>
    have hcons : holdings (f :: rest) = holdings [f] ++ holdings rest :=
      holdings_append [f] rest
    rw [hcons, List.map_append, ← List.append_assoc, ← definitions_record place r hf]
    exact ih (r.record place f)

namespace Holds

variable {r : Report} {hs : List Holding}

theorem opening (place : Place) (content language : String) :
    (opening place content language).Holds [] := by
  constructor
  · rw [blocks_eq_filter, outlines_opening]
    rfl
  · rfl

theorem fail (h : r.Holds hs) (failure : Failure) : (r.fail failure).Holds hs :=
  ⟨h.blocks_eq, h.definitions_eq⟩

theorem updateFile (h : r.Holds hs) {f : Declaration → Declaration}
    (hf : ∀ d, (f d).outline = d.outline) : (r.updateFile f).Holds hs := by
  refine ⟨?_, h.definitions_eq⟩
  rw [blocks_eq_filter, outlines_updateFile hf, ← blocks_eq_filter]
  exact h.blocks_eq

theorem detect (h : r.Holds hs) (settings : DetectorSettings) (bank : Bank) (scene : Scene) :
    (r.detect settings bank scene).Holds hs := by
  obtain ⟨errors, hdetect⟩ := r.detect_eq settings bank scene
  rw [hdetect]
  exact ⟨h.blocks_eq, h.definitions_eq⟩

theorem recordAll {place : Place} {facts : List Fact} {known : List String} (h : r.Holds hs)
    (hdraws : Draws facts) (howned : Owned known facts) :
    (r.recordAll place facts).Holds (hs ++ holdings facts) := by
  constructor
  · have hkinds : (holdings facts).map (·.outline) =
        ((holdings facts).map (·.outline)).filter (·.kind ≠ .file) := by
      refine (List.filter_eq_self.mpr ?_).symm
      intro o ho
      obtain ⟨x, hx, rfl⟩ := List.mem_map.mp ho
      exact decide_eq_true (howned.kind_ne_file x hx)
    rw [blocks_eq_filter, outlines_recordAll, hdraws, List.filter_append, ← hkinds,
      ← blocks_eq_filter, h.blocks_eq, List.map_append]
  · rw [definitions_recordAll place r howned, h.definitions_eq, List.map_append]

end Holds

end Report

end CodeSurvey
