import CodeSurvey.Proofs.Detect.Disabling
import CodeSurvey.Proofs.Report.Stamp
import CodeSurvey.Proofs.Text.Occurrence

/-!
# Moving a report to another path

A report that was made under one path and moved to another is the report that the same steps make
under the other path. This is shown step by step: the steps of a survey put the path of the file
only where moving a report looks for it. A second account of the same steps says which texts a
report mentions.
-/

namespace CodeSurvey

open Report (swap)

/-! ## Moving the parts of a report -/

def Element.move (old new : String) (e : Element) : Element :=
  { e with filePath := swap old new e.filePath, name := swap old new e.name }

/-- A relation whose ends follow a path. -/
def Relation.move (old new : String) (r : Relation) : Relation :=
  { r with source := swap old new r.source, target := swap old new r.target }

def Finding.move (old new : String) (f : Finding) : Finding :=
  { f with filePath := swap old new f.filePath }

theorem Report.swap_of_ne {old s : String} (h : s ≠ old) (new : String) : swap old new s = s :=
  if_neg h

def Declaration.rename (d : Declaration) (name : String) : Declaration := { d with name }

/-- A change of declarations that does not ask for their names and leaves them. -/
def Declaration.NameBlind (f : Declaration → Declaration) : Prop :=
  ∀ d name, f (d.rename name) = (f d).rename name

namespace Declaration.NameBlind

variable {f g : Declaration → Declaration}

theorem name_eq (h : NameBlind f) (d : Declaration) : (f d).name = d.name := by
  have hsame : f d = (f d).rename d.name := h d d.name
  rw [hsame]
  rfl

theorem comp (hg : NameBlind g) (hf : NameBlind f) : NameBlind fun d => g (f d) := by
  intro d name
  change g (f (d.rename name)) = (g (f d)).rename name
  rw [hf, hg]

theorem note (key : String) (value : Json) : NameBlind (·.note key value) := fun _ _ => rfl

theorem noteText? (key : String) (text : Option String) : NameBlind (·.noteText? key text) := by
  cases text with
  | none => exact fun _ _ => rfl
  | some text => exact note key _

theorem foldl {α : Type} {step : Declaration → α → Declaration}
    (h : ∀ item, NameBlind (step · item)) (items : List α) : NameBlind (items.foldl step) := by
  induction items with
  | nil => exact fun _ _ => rfl
  | cons item rest ih => exact ih.comp (h item)

theorem addDependencies (names : List String) : NameBlind (·.addDependencies names) :=
  foldl (fun _ _ _ => rfl) names

end Declaration.NameBlind

theorem Element.move_update {f : Declaration → Declaration} (hf : Declaration.NameBlind f)
    (old new : String) (e : Element) : (e.update f).move old new = (e.move old new).update f := by
  have hname : swap old new (f e.toDeclaration).name = swap old new e.name := by
    rw [hf.name_eq]
  change (⟨(f e.toDeclaration).rename (swap old new (f e.toDeclaration).name), _, _⟩ : Element) =
    ⟨f (e.toDeclaration.rename (swap old new e.name)), _, _⟩
  rw [hf, hname]
  rfl

theorem Relation.move_notes (old new : String) (r : Relation) (entries : List (String × Json)) :
    (r.notes entries).move old new = (r.move old new).notes entries := by
  induction entries generalizing r with
  | nil => rfl
  | cons entry rest ih => exact ih (r.note entry.1 entry.2)

/-! ## Rules that do not ask for the path -/

/-- A rule whose findings depend on the path only by carrying it. -/
def Rule.PathBlind (rule : Rule) : Prop :=
  ∀ scene filePath, rule.scan { scene with filePath } = rule.scan scene ∧
    rule.reference { scene with filePath } = rule.reference scene

theorem Rule.PathBlind.map_findings {rule : Rule} (h : rule.PathBlind) (scene : Scene)
    (new : String) : (rule.findings scene).map (Finding.move scene.filePath new) =
      rule.findings { scene with filePath := new } := by
  obtain ⟨hscan, hreference⟩ := h scene new
  have hadmits : rule.admits { scene with filePath := new } = rule.admits scene := rfl
  unfold findings unguarded
  rw [hadmits, hscan]
  split
  · rw [List.map_map]
    refine List.map_congr_left fun hit _ => ?_
    simp only [Function.comp_apply, finding, Finding.move, hreference, Report.swap_self]
    rfl
  · rfl

namespace Report

/-- What a bank of rules adds to a report. -/
theorem detect_ofRules (r : Report) (settings : DetectorSettings) (name : String)
    (rules : List Rule) (scene : Scene) :
    r.detect settings (.ofRules name rules) scene =
      r.addFindings ((rules.filter fun rule => !isDisabled settings.disabled rule.name).flatMap
        (·.findings { scene with margin := settings.margin })) := by
  simp only [detect, Bank.run_without_ofRules]
  rfl

/-! ## Moving a report step by step -/

def move (old new : String) (r : Report) : Report where
  filePath := new
  elements := r.elements.map (Element.move old new)
  relations := r.relations.map (Relation.move old new)
  findings := r.findings.map (Finding.move old new)
  errors := r.errors.map (Text.replace old new)

theorem relocate_of_ne {old new : String} (h : old ≠ new) (r : Report) :
    r.relocate old new = r.move old new := if_neg h

section Move

variable (old new context : String) (r : Report)

theorem move_opening (content language : String) :
    (opening ⟨old, context⟩ content language).move old new =
      opening ⟨new, context⟩ content language := by
  simp only [opening, move, List.map_cons, List.map_nil, Element.move, Declaration.toElement,
    fileDeclaration, swap_self]

theorem move_failed {message message' : String} (h : Text.replace old new message = message') :
    (failed old message).move old new = failed new message' := by
  rw [← h]
  rfl

theorem move_fail {failure failure' : Failure}
    (h : Text.replace old new failure.message = failure'.message) :
    (r.fail failure).move old new = (r.move old new).fail failure' := by
  simp only [fail, addError, move, List.map_append, List.map_cons, List.map_nil, h]

theorem move_updateFile {f : Declaration → Declaration} (hf : Declaration.NameBlind f) :
    (r.updateFile f).move old new = (r.move old new).updateFile f := by
  have helements (elements : List Element) :
      (modifyFirst (·.kind = .file) (·.update f) elements).map (Element.move old new) =
        modifyFirst (·.kind = .file) (·.update f) (elements.map (Element.move old new)) := by
    induction elements with
    | nil => rfl
    | cons e rest ih =>
      have hkind : (e.move old new).kind = e.kind := rfl
      simp only [modifyFirst, List.map_cons, hkind]
      split
      · rw [List.map_cons, Element.move_update hf]
      · rw [List.map_cons, ih]
  simp only [updateFile, move, helements]

theorem move_relate {target : String} (h : target ≠ old) (kind : RelationKind) (line : Nat)
    (properties : List (String × Json)) :
    (r.relate ⟨old, context⟩ old target kind line properties).move old new =
      (r.move old new).relate ⟨new, context⟩ new target kind line properties := by
  have hends : Relation.move old new ({ source := old, target, kind, context : Relation }.atLine line)
      = { source := new, target, kind, context : Relation }.atLine line := by
    simp only [Relation.move, Relation.atLine, Relation.note, swap_self, swap_of_ne h]
  simp only [relate, addRelation, move, List.map_append, List.map_cons, List.map_nil,
    Relation.move_notes, hends]

/-- Relations of the file to what it refers to. -/
theorem move_recordAll {α : Type} {items : List α} (fact : String → α → Fact)
    (h : ∀ item ∈ items, ∃ target kind line properties, target ≠ old ∧
      ∀ path, fact path item = .relate path target kind line properties) :
    (r.recordAll ⟨old, context⟩ (items.map (fact old))).move old new =
      (r.move old new).recordAll ⟨new, context⟩ (items.map (fact new)) := by
  induction items generalizing r with
  | nil => rfl
  | cons item rest ih =>
    obtain ⟨target, kind, line, properties, hne, hfact⟩ := h item List.mem_cons_self
    have hrest := ih (r.relate ⟨old, context⟩ old target kind line properties)
      fun other hother => h other (List.mem_cons_of_mem _ hother)
    rw [move_relate _ _ _ _ hne] at hrest
    simpa only [recordAll, List.map_cons, List.foldl_cons, hfact, record] using hrest

theorem move_detect (settings : DetectorSettings) (name : String) {rules : List Rule}
    (hrules : ∀ rule ∈ rules, rule.PathBlind) {scene : Scene} (hpath : scene.filePath = old) :
    (r.detect settings (.ofRules name rules) scene).move old new =
      (r.move old new).detect settings (.ofRules name rules) { scene with filePath := new } := by
  subst hpath
  simp only [detect_ofRules, addFindings, move, List.map_append, List.map_flatMap]
  congr 2
  refine List.flatMap_congr fun rule hrule => ?_
  exact (hrules rule (List.mem_filter.mp hrule).1).map_findings
    { scene with margin := settings.margin } new

end Move

/-! ## What a report mentions -/

/-- A report none of whose names, paths, ends of relations and errors mentions a text. -/
structure Avoids (word : String) (r : Report) : Prop where
  filePath : ¬ Text.Occurs word r.filePath
  elements : ∀ e ∈ r.elements, ¬ Text.Occurs word e.name ∧ ¬ Text.Occurs word e.filePath
  relations : ∀ rel ∈ r.relations, ¬ Text.Occurs word rel.source ∧ ¬ Text.Occurs word rel.target
  findings : ∀ f ∈ r.findings, ¬ Text.Occurs word f.name ∧ ¬ Text.Occurs word f.filePath
  errors : ∀ e ∈ r.errors, ¬ Text.Occurs word e

section Avoids

variable {word : String} {r : Report} {place : Place}

theorem avoids_failed (hpath : ¬ Text.Occurs word place.path) {message : String}
    (h : ¬ Text.Occurs word message) : (failed place.path message).Avoids word where
  filePath := hpath
  elements _ he := absurd he List.not_mem_nil
  relations _ hrel := absurd hrel List.not_mem_nil
  findings _ hf := absurd hf List.not_mem_nil
  errors e he := by
    rw [List.mem_singleton.mp he]
    exact h

theorem avoids_opening (h : ¬ Text.Occurs word place.path) (content language : String) :
    (opening place content language).Avoids word where
  filePath := h
  elements e he := by
    rw [List.mem_singleton.mp he]
    exact ⟨h, h⟩
  relations _ hrel := absurd hrel List.not_mem_nil
  findings _ hf := absurd hf List.not_mem_nil
  errors _ he := absurd he List.not_mem_nil

namespace Avoids

theorem fail (h : r.Avoids word) {failure : Failure} (hf : ¬ Text.Occurs word failure.message) :
    (r.fail failure).Avoids word := by
  refine { h with errors := fun e he => ?_ }
  rcases List.mem_append.mp he with he | he
  · exact h.errors e he
  · rw [List.mem_singleton.mp he]
    exact hf

theorem updateFile (h : r.Avoids word) {f : Declaration → Declaration}
    (hf : Declaration.NameBlind f) : (r.updateFile f).Avoids word := by
  refine { h with elements := fun e he => ?_ }
  have hends : (r.updateFile f).elements.map (fun e => (e.name, e.filePath)) =
      r.elements.map fun e => (e.name, e.filePath) :=
    map_modifyFirst (fun e : Element => congrArg (·, e.filePath) (hf.name_eq e.toDeclaration)) _ _
  have hmem := List.mem_map_of_mem (f := fun e => (e.name, e.filePath)) he
  rw [hends] at hmem
  obtain ⟨e', he', heq⟩ := List.mem_map.mp hmem
  obtain ⟨hname, hpath⟩ := Prod.mk.inj heq
  rw [← hname, ← hpath]
  exact h.elements e' he'

theorem relate (h : r.Avoids word) {source target : String} (hsource : ¬ Text.Occurs word source)
    (htarget : ¬ Text.Occurs word target) (kind : RelationKind) (line : Nat)
    (properties : List (String × Json)) :
    (r.relate place source target kind line properties).Avoids word := by
  refine { h with relations := fun rel hrel => ?_ }
  rcases List.mem_append.mp hrel with hrel | hrel
  · exact h.relations rel hrel
  · rw [List.mem_singleton.mp hrel, Relation.source_notes, Relation.target_notes]
    exact ⟨hsource, htarget⟩

theorem recordAll (h : r.Avoids word) {facts : List Fact}
    (hfacts : ∀ fact ∈ facts, ∃ source target kind line properties,
      fact = .relate source target kind line properties ∧
        ¬ Text.Occurs word source ∧ ¬ Text.Occurs word target) :
    (r.recordAll place facts).Avoids word := by
  induction facts generalizing r with
  | nil => exact h
  | cons fact rest ih =>
    obtain ⟨source, target, kind, line, properties, rfl, hsource, htarget⟩ :=
      hfacts fact List.mem_cons_self
    exact ih (h.relate hsource htarget kind line properties)
      fun other hother => hfacts other (List.mem_cons_of_mem _ hother)

theorem detect (h : r.Avoids word) (settings : DetectorSettings) (name : String)
    {rules : List Rule} (hrules : ∀ rule ∈ rules, ¬ Text.Occurs word rule.name) {scene : Scene}
    (hpath : ¬ Text.Occurs word scene.filePath) :
    (r.detect settings (.ofRules name rules) scene).Avoids word := by
  rw [detect_ofRules]
  refine { h with findings := fun f hf => ?_ }
  rcases List.mem_append.mp hf with hf | hf
  · exact h.findings f hf
  · obtain ⟨rule, hrule, hf⟩ := List.mem_flatMap.mp hf
    have hname := rule.signs_detector _ _ rfl f hf
    have hstamp := Rule.stamped_of_mem_findings hf
    rw [hname, hstamp.1]
    exact ⟨hrules rule (List.mem_filter.mp hrule).1, hpath⟩

end Avoids

end Avoids

end Report

end CodeSurvey
