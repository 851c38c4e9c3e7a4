import CodeSurvey.Frontend.Basic
import CodeSurvey.Proofs.Lookup

/-!
# What the steps of a report leave as it is

Elements are changed after they were recorded: notes are put on them, blocks are closed and
dependencies come to light. Kind, name, line, file and context stay as they are, and so does the
digest of a file. This part of an element is its mark. Errors and findings are only ever added.
-/

namespace CodeSurvey

/-- What stays as it is of a declaration. -/
structure Imprint where
  kind : ElementKind
  name : String
  lineNumber : Nat
  digest : Option Json

namespace Declaration

def imprint (d : Declaration) : Imprint :=
  ⟨d.kind, d.name, d.lineNumber, d.metadata.get? "content_hash"⟩

variable (d : Declaration) (tag : String) (tags names : List String)

@[simp] theorem imprint_addTags : (d.addTags tags).imprint = d.imprint := by
  induction tags generalizing d with
  | nil => rfl
  | cons tag rest ih => exact ih (d.addTag tag)

@[simp] theorem imprint_addDependencies : (d.addDependencies names).imprint = d.imprint := by
  induction names generalizing d with
  | nil => rfl
  | cons name rest ih => exact ih (d.addDependency name)

@[simp] theorem imprint_note {key : String} (value : Json)
    (h : key ≠ "content_hash") : (d.note key value).imprint = d.imprint := by
  simp [imprint, note, Fields.get?_set_of_ne h.symm]

@[simp] theorem imprint_noteText? {key : String} (text : Option String)
    (h : key ≠ "content_hash") : (d.noteText? key text).imprint = d.imprint := by
  cases text with
  | none => rfl
  | some t => exact d.imprint_note _ h

@[simp] theorem kind_addTag : (d.addTag tag).kind = d.kind := rfl

@[simp] theorem name_addTag : (d.addTag tag).name = d.name := rfl

@[simp] theorem kind_addTags : (d.addTags tags).kind = d.kind :=
  congrArg Imprint.kind (d.imprint_addTags tags)

@[simp] theorem name_addTags : (d.addTags tags).name = d.name :=
  congrArg Imprint.name (d.imprint_addTags tags)

@[simp] theorem kind_addDependencies : (d.addDependencies names).kind = d.kind :=
  congrArg Imprint.kind (d.imprint_addDependencies names)

@[simp] theorem name_addDependencies : (d.addDependencies names).name = d.name :=
  congrArg Imprint.name (d.imprint_addDependencies names)

@[simp] theorem kind_noteText? (key : String) (text : Option String) :
    (d.noteText? key text).kind = d.kind := by
  cases text <;> rfl

@[simp] theorem name_noteText? (key : String) (text : Option String) :
    (d.noteText? key text).name = d.name := by
  cases text <;> rfl

theorem lineNumber_addTag : (d.addTag tag).lineNumber = d.lineNumber := rfl

theorem lineNumber_addDependencies : (d.addDependencies names).lineNumber = d.lineNumber :=
  congrArg Imprint.lineNumber (d.imprint_addDependencies names)

theorem lineNumber_noteText? (key : String) (text : Option String) :
    (d.noteText? key text).lineNumber = d.lineNumber := by
  cases text <;> rfl

end Declaration

/-- What stays as it is of an element: the imprint of its declaration and the place it is in. -/
def Element.mark (e : Element) : Imprint × Place := (e.imprint, ⟨e.filePath, e.context⟩)

theorem Element.mark_update {f : Declaration → Declaration} (h : ∀ d, (f d).imprint = d.imprint)
    (e : Element) : (e.update f).mark = e.mark :=
  congrArg (·, _) (h e.toDeclaration)

/-- The mark of the element that a fact declares. -/
def Fact.marks (place : Place) : Fact → List (Imprint × Place)
  | declare _ d => [(d.imprint, place)]
  | _ => []

/-! ## Relations -/

namespace Relation

variable (r : Relation) (entries : List (String × Json))

/-- Notes on a relation change its properties only. -/
theorem notes_eq : ∃ properties, r.notes entries = { r with properties } := by
  induction entries generalizing r with
  | nil => exact ⟨r.properties, rfl⟩
  | cons entry rest ih => exact ih (r.note entry.1 entry.2)

@[simp] theorem kind_notes : (r.notes entries).kind = r.kind := by
  obtain ⟨properties, h⟩ := r.notes_eq entries
  rw [h]

@[simp] theorem source_notes : (r.notes entries).source = r.source := by
  obtain ⟨properties, h⟩ := r.notes_eq entries
  rw [h]

@[simp] theorem target_notes : (r.notes entries).target = r.target := by
  obtain ⟨properties, h⟩ := r.notes_eq entries
  rw [h]

@[simp] theorem context_notes : (r.notes entries).context = r.context := by
  obtain ⟨properties, h⟩ := r.notes_eq entries
  rw [h]

end Relation

namespace Report

/-! ## Changing one item of a list -/

section Modify

variable {α β : Type} {f : α → α} {g : α → β}

theorem map_modifyFirst (h : ∀ x, g (f x) = g x) (p : α → Bool) (xs : List α) :
    (modifyFirst p f xs).map g = xs.map g := by
  fun_induction modifyFirst p f xs with
  | case1 => rfl
  | case2 x xs hx => simp [h]
  | case3 x xs hx ih => simp [ih]

theorem map_modifyLast (h : ∀ x, g (f x) = g x) (p : α → Bool) (xs : List α) :
    (modifyLast p f xs).map g = xs.map g := by
  rw [modifyLast, List.map_reverse, map_modifyFirst h, List.map_reverse, List.reverse_reverse]

theorem map_modify (h : ∀ x, g (f x) = g x) (xs : List α) (i : Nat) :
    (xs.modify i f).map g = xs.map g := by
  induction xs generalizing i with
  | nil => simp
  | cons x xs ih =>
    cases i with
    | zero => simp [h]
    | succ i => simp [ih]

end Modify

/-! ## Marks -/

def marks (r : Report) : List (Imprint × Place) := r.elements.map Element.mark

theorem marks_updateFile {f : Declaration → Declaration} (h : ∀ d, (f d).imprint = d.imprint)
    (r : Report) : (r.updateFile f).marks = r.marks :=
  map_modifyFirst (Element.mark_update h) _ _

/-- A declaration adds a mark; no other fact does, and none changes the marks that are there. -/
theorem marks_record (place : Place) (r : Report) (f : Fact) :
    (r.record place f).marks = r.marks ++ f.marks place := by
  cases f with
  | declare owner d =>
    simp only [marks, record, relate, addRelation, addElement, List.map_append]
    rfl
  | relate source target kind line properties => exact (List.append_nil _).symm
  | inject owner target line properties =>
    refine Eq.trans ?_ (List.append_nil _).symm
    apply map_modifyLast
    apply Element.mark_update
    intro d
    rfl
  | close position content lastLine =>
    refine Eq.trans ?_ (List.append_nil _).symm
    apply map_modify
    apply Element.mark_update
    intro d
    exact Declaration.imprint_note _ _ (by decide)

theorem marks_recordAll (place : Place) (r : Report) (facts : List Fact) :
    (r.recordAll place facts).marks = r.marks ++ facts.flatMap (·.marks place) := by
  induction facts generalizing r with
  | nil => exact (List.append_nil _).symm
  | cons f rest ih =>
    rw [List.flatMap_cons, ← List.append_assoc, ← marks_record]
    exact ih (r.record place f)

/-! ## Errors and findings -/

/-- Adding errors one after the other changes nothing else. -/
theorem foldl_addError (messages : List String) (r : Report) :
    messages.foldl addError r = { r with errors := r.errors ++ messages } := by
  induction messages generalizing r with
  | nil => simp
  | cons message rest ih =>
    rw [List.foldl_cons, ih]
    simp [addError]

theorem foldl_fail (failures : List Failure) (r : Report) :
    failures.foldl fail r = { r with errors := r.errors ++ failures.map Failure.message } := by
  rw [← foldl_addError, List.foldl_map]
  rfl

/-- Detection adds findings and errors and changes nothing else. -/
theorem detect_eq (r : Report) (settings : DetectorSettings) (bank : Bank) (scene : Scene) :
    ∃ errors, r.detect settings bank scene =
      { r with
        findings := r.findings ++
          ((bank.without settings.disabled).run { scene with margin := settings.margin }).findings
        errors } :=
  ⟨_, foldl_fail _ _⟩

end Report

/-! ## Banks -/

/-- What a detector finds, nothing if it gives up. -/
def Detector.found (d : Detector) (scene : Scene) : List Finding :=
  (d.inspect scene).toOption.getD []

/-- The failure of a detector that gives up. -/
def Detector.failure? (d : Detector) (scene : Scene) : Option Failure :=
  match d.inspect scene with
  | .ok _ => none
  | .error crash => some (.detector d.name crash.message)

namespace Bank

/-- A bank reports what each detector finds, or that it failed, whatever the others do. -/
theorem run_eq (b : Bank) (scene : Scene) :
    b.run scene =
      ⟨b.detectors.flatMap (·.found scene), b.detectors.filterMap (·.failure? scene)⟩ := by
  suffices h : ∀ (detectors : List Detector) (o : Outcome), detectors.foldl (step scene) o =
      ⟨o.findings ++ detectors.flatMap (·.found scene),
        o.failures ++ detectors.filterMap (·.failure? scene)⟩ from h b.detectors {}
  intro detectors
  induction detectors with
  | nil => simp
  | cons d rest ih =>
    intro o
    rw [List.foldl_cons, ih]
    cases h : d.inspect scene <;> simp [step, h, Detector.found, Detector.failure?, Except.toOption]

/-- A bank of rules finds what the rules that are not left out find. -/
theorem run_without_ofRules (name : String) (rules : List Rule) (disabled : List String)
    (scene : Scene) : ((ofRules name rules).without disabled).run scene =
      { findings := (rules.filter fun rule => !isDisabled disabled rule.name).flatMap
          (·.findings scene) } := by
  have hkept : ((ofRules name rules).without disabled).detectors =
      (rules.filter fun rule => !isDisabled disabled rule.name).map Rule.detector :=
    List.filter_map
  have hnone (rule : Rule) : rule.detector.failure? scene = none := rfl
  rw [run_eq, hkept, List.flatMap_map, List.filterMap_map]
  simp only [Function.comp_def, hnone, List.filterMap_none]
  rfl

end Bank

end CodeSurvey
