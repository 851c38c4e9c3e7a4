import CodeSurvey.Frontend.Facts
import CodeSurvey.Proofs.Report.Steps

/-!
# Outlines

The outline of an element is what a reader of a listing looks for: kind, name, first and last line,
text and namespace. Only declarations and ends of blocks change the outlines of a report, so that what
facts do to them can be computed without the report.
-/

namespace CodeSurvey

section Drop

variable {α : Type} {xs rest : List α} {x : α} {n : Nat}

theorem getElem?_of_drop (h : xs.drop n = x :: rest) : xs[n]? = some x := by
  rw [← List.head?_drop, h, List.head?_cons]

theorem drop_succ_of_drop (h : xs.drop n = x :: rest) : xs.drop (n + 1) = rest := by
  rw [← List.tail_drop, h, List.tail_cons]

end Drop

/-- The outline of an element. The last line and the namespace are notes, which may be missing. -/
structure Outline where
  kind : ElementKind
  name : String
  firstLine : Nat
  lastLine : Option Json
  content : String
  scope : Option Json

/-- The outline after the block of the element has ended on a line. -/
def Outline.close (o : Outline) (content : String) (lastLine : Nat) : Outline :=
  { o with content, lastLine := some (.nat lastLine) }

/-- The block of an outline runs from its first line to a last one, and its text is these lines. -/
structure Outline.Spans (lines : List String) (last : Nat) (o : Outline) : Prop where
  lastLine_eq : o.lastLine = some (.nat last)
  firstLine_pos : 1 ≤ o.firstLine
  firstLine_le : o.firstLine ≤ last
  last_le : last ≤ lines.length
  content_eq : o.content =
    Text.joinLines ((lines.drop (o.firstLine - 1)).take (last + 1 - o.firstLine))

namespace Declaration

def outline (d : Declaration) : Outline :=
  ⟨d.kind, d.name, d.lineNumber, d.metadata.get? "end_line", d.content, d.metadata.get? "namespace"⟩

variable (d : Declaration)

@[simp] theorem outline_addTags (tags : List String) : (d.addTags tags).outline = d.outline := by
  induction tags generalizing d with
  | nil => rfl
  | cons tag rest ih => exact ih (d.addTag tag)

@[simp] theorem outline_addTag (tag : String) : (d.addTag tag).outline = d.outline := rfl

@[simp] theorem outline_addDependency (name : String) :
    (d.addDependency name).outline = d.outline := rfl

/-- Notes other than those that an outline shows leave it as it is. -/
theorem outline_note {key : String} (value : Json) (hline : key ≠ "end_line")
    (hscope : key ≠ "namespace") : (d.note key value).outline = d.outline := by
  simp [outline, note, Fields.get?_set_of_ne hline.symm, Fields.get?_set_of_ne hscope.symm]

theorem outline_noteText? {key : String} (text : Option String)
    (hline : key ≠ "end_line") (hscope : key ≠ "namespace") :
    (d.noteText? key text).outline = d.outline := by
  cases text with
  | none => rfl
  | some t => exact d.outline_note _ hline hscope

/-- Noting a namespace changes the namespace only. -/
theorem outline_noteText?_namespace (text : Option String) :
    (d.noteText? "namespace" text).outline =
      { d.outline with scope := (text.map Json.str).or d.outline.scope } := by
  cases text with
  | none => rfl
  | some t =>
    simp [outline, noteText?, note, Fields.get?_set_self, Fields.get?_set_of_ne]

/-- Ending a block changes the text and the last line only. -/
theorem outline_close (content : String) (lastLine : Nat) :
    ({ d with content }.note "end_line" (.nat lastLine)).outline =
      d.outline.close content lastLine := by
  simp [outline, note, Outline.close, Fields.get?_set_self, Fields.get?_set_of_ne]

end Declaration

/-! ## Properties of facts -/

/-- Facts that all have a property. -/
def AllFacts (p : Fact → Prop) (facts : List Fact) : Prop := ∀ f ∈ facts, p f

namespace AllFacts

variable {p q : Fact → Prop} {f : Fact} {facts more : List Fact} {α : Type}

@[simp] theorem nil : AllFacts p [] := by simp [AllFacts]

@[simp] theorem cons_iff : AllFacts p (f :: facts) ↔ p f ∧ AllFacts p facts := List.forall_mem_cons

@[simp] theorem append_iff : AllFacts p (facts ++ more) ↔ AllFacts p facts ∧ AllFacts p more :=
  List.forall_mem_append

@[simp] theorem map_iff {items : List α} {g : α → Fact} :
    AllFacts p (items.map g) ↔ ∀ x ∈ items, p (g x) := List.forall_mem_map

@[simp] theorem flatMap_iff {items : List α} {g : α → List Fact} :
    AllFacts p (items.flatMap g) ↔ ∀ x ∈ items, AllFacts p (g x) := List.forall_mem_flatMap

@[simp] theorem filterMap_iff {items : List α} {g : α → Option Fact} :
    AllFacts p (items.filterMap g) ↔ ∀ x ∈ items, ∀ f, g x = some f → p f := by
  simp only [AllFacts, List.mem_filterMap]
  exact ⟨fun h x hx f hf => h f ⟨x, hx, hf⟩, fun h f ⟨x, hx, hf⟩ => h x hx f hf⟩

@[simp] theorem getD_map_iff {item : Option α} {g : α → List Fact} :
    AllFacts p ((item.map g).getD []) ↔ ∀ x, item = some x → AllFacts p (g x) := by
  cases item <;> simp

theorem imp (h : AllFacts p facts) (hpq : ∀ f, p f → q f) : AllFacts q facts :=
  fun f hf => hpq f (h f hf)

end AllFacts

/-! ## What facts do to outlines -/

namespace Fact

/-- The outlines of a report after a fact. -/
def redraw (outlines : List Outline) : Fact → List Outline
  | declare _ d => outlines ++ [d.outline]
  | relate _ _ _ _ _ => outlines
  | inject _ _ _ _ => outlines
  | close position content lastLine => outlines.modify position (·.close content lastLine)

/-- A fact that leaves the outlines as they are. -/
def Quiet : Fact → Prop
  | declare _ _ => False
  | relate _ _ _ _ _ => True
  | inject _ _ _ _ => True
  | close _ _ _ => False

variable {owner source target : String} {kind : RelationKind} {line : Nat}
  {properties : List (String × Json)}

@[simp] theorem quiet_relate : (relate source target kind line properties).Quiet := trivial

@[simp] theorem quiet_edge : (edge source target kind line).Quiet := trivial

@[simp] theorem quiet_inject : (inject owner target line properties).Quiet := trivial

theorem Quiet.redraw_eq {f : Fact} (h : f.Quiet) (outlines : List Outline) :
    f.redraw outlines = outlines := by
  cases f with
  | declare owner d => exact h.elim
  | relate | inject => rfl
  | close position content lastLine => exact h.elim

end Fact

/-- The outlines of a report after facts. -/
def redrawAll (outlines : List Outline) (facts : List Fact) : List Outline :=
  facts.foldl Fact.redraw outlines

@[simp] theorem redrawAll_nil (outlines : List Outline) : redrawAll outlines [] = outlines := rfl

@[simp] theorem redrawAll_cons (outlines : List Outline) (f : Fact) (facts : List Fact) :
    redrawAll outlines (f :: facts) = redrawAll (f.redraw outlines) facts := rfl

@[simp] theorem redrawAll_append (outlines : List Outline) (facts more : List Fact) :
    redrawAll outlines (facts ++ more) = redrawAll (redrawAll outlines facts) more :=
  List.foldl_append

/-- Facts that leave the outlines as they are. -/
abbrev AllQuiet (facts : List Fact) : Prop := AllFacts Fact.Quiet facts

namespace AllQuiet

theorem redrawAll_eq {facts : List Fact} (h : AllQuiet facts) (outlines : List Outline) :
    redrawAll outlines facts = outlines := by
  induction facts with
  | nil => rfl
  | cons f rest ih =>
    obtain ⟨hf, hrest⟩ := AllFacts.cons_iff.mp h
    rw [redrawAll_cons, hf.redraw_eq, ih hrest]

end AllQuiet

/-! ## The outlines of a report -/

namespace Report

def outlines (r : Report) : List Outline := r.elements.map fun e => e.outline

@[simp] theorem getElem?_outlines (r : Report) (i : Nat) :
    r.outlines[i]? = r.elements[i]?.map fun e => e.outline := List.getElem?_map

theorem outlines_record (place : Place) (r : Report) (f : Fact) :
    (r.record place f).outlines = f.redraw r.outlines := by
  cases f with
  | declare owner d =>
    simp only [outlines, record, relate, addRelation, addElement, List.map_append]
    rfl
  | relate source target kind line properties => rfl
  | inject owner target line properties =>
    apply map_modifyLast
    intro e
    rfl
  | close position content lastLine =>
    apply List.ext_getElem?
    intro i
    simp only [outlines, record, Fact.redraw, List.getElem?_map, List.getElem?_modify]
    cases r.elements[i]? with
    | none => rfl
    | some e =>
      by_cases hi : position = i
      · simp only [hi, if_true]
        exact congrArg some (e.toDeclaration.outline_close content lastLine)
      · simp [hi]

theorem outlines_recordAll (place : Place) (r : Report) (facts : List Fact) :
    (r.recordAll place facts).outlines = redrawAll r.outlines facts := by
  induction facts generalizing r with
  | nil => rfl
  | cons f rest ih =>
    rw [redrawAll_cons, ← outlines_record place r f]
    exact ih (r.record place f)

@[simp] theorem outlines_detect (r : Report) (settings : DetectorSettings) (bank : Bank)
    (scene : Scene) : (r.detect settings bank scene).outlines = r.outlines := by
  obtain ⟨errors, h⟩ := r.detect_eq settings bank scene
  rw [h]
  rfl

theorem outlines_updateFile {f : Declaration → Declaration} (h : ∀ d, (f d).outline = d.outline)
    (r : Report) : (r.updateFile f).outlines = r.outlines :=
  map_modifyFirst (fun e => h e.toDeclaration) _ _

/-- A report opens with the outline of the file, which has no last line. -/
theorem outlines_opening (place : Place) (content language : String) :
    (opening place content language).outlines =
      [⟨.file, place.path, 1, none, content, none⟩] := by
  have hnil (key : String) : Fields.get? key [] = none := rfl
  simp [outlines, opening, Declaration.toElement, Declaration.outline, fileDeclaration,
    Fields.ofList, Fields.get?_set, hnil]

end Report

end CodeSurvey
