import CodeSurvey.Proofs.Report.Growth

/-!
# Definitions and elements

Every element but the file itself has exactly one definition, by what owns it. The definitions of a
report stand in the order of the elements that they define; the owner is the file or a type that
stands before.
-/

namespace CodeSurvey

/-- Definitions that match elements one by one, in order. Each gives the name and the line of its
element, and its source is the path or the name of a type before the element. -/
inductive Matches (path : String) : List Imprint → List Relation → Prop
  | nil : Matches path [] []
  | snoc {imprints : List Imprint} {definitions : List Relation} {i : Imprint} {rel : Relation}
      (h : Matches path imprints definitions) (htarget : rel.target = i.name)
      (hline : rel.properties.get? "line_number" = some (.nat i.lineNumber))
      (howner : rel.source = path ∨ ∃ o ∈ imprints, o.kind.IsType ∧ o.name = rel.source) :
      Matches path (imprints ++ [i]) (definitions ++ [rel])

namespace Matches

variable {path : String} {imprints : List Imprint} {definitions : List Relation}

theorem length_eq (h : Matches path imprints definitions) :
    definitions.length = imprints.length := by
  induction h with
  | nil => rfl
  | snoc h htarget hline howner ih => simp [ih]

theorem map_target (h : Matches path imprints definitions) :
    definitions.map (·.target) = imprints.map (·.name) := by
  induction h with
  | nil => rfl
  | snoc h htarget hline howner ih => simp [ih, htarget]

theorem map_line (h : Matches path imprints definitions) :
    definitions.map (·.properties.get? "line_number") =
      imprints.map fun i => some (.nat i.lineNumber) := by
  induction h with
  | nil => rfl
  | snoc h htarget hline howner ih => simp [ih, hline]

theorem owner (h : Matches path imprints definitions) {k : Nat} {rel : Relation}
    (hrel : definitions[k]? = some rel) :
    rel.source = path ∨ ∃ o ∈ imprints.take k, o.kind.IsType ∧ o.name = rel.source := by
  induction h with
  | nil => simp at hrel
  | @snoc imprints definitions i last h htarget hline howner ih =>
    rcases Nat.lt_trichotomy k definitions.length with hk | hk | hk
    · rw [List.getElem?_append_left hk] at hrel
      rw [List.take_append_of_le_length (by rw [← h.length_eq]; exact hk.le)]
      exact ih hrel
    · subst hk
      rw [List.getElem?_concat_length] at hrel
      cases hrel
      rw [h.length_eq, List.take_left]
      exact howner
    · rw [List.getElem?_eq_none (by simpa using hk)] at hrel
      cases hrel

end Matches

/-- The imprint of the element other than a file that a fact declares. -/
def Fact.imprints : Fact → List Imprint
  | declare _ d => [d.imprint].filter (·.kind ≠ .file)
  | _ => []

theorem Fact.Plain.imprints_eq {f : Fact} (h : f.Plain) : f.imprints = [] := by
  cases f with
  | declare owner d => exact h.elim
  | relate | inject | close => rfl

namespace Report

/-- The elements other than the file itself. -/
def members (r : Report) : List Element := r.elements.filter (·.kind ≠ .file)

def imprints (r : Report) : List Imprint := (r.marks.map (·.1)).filter (·.kind ≠ .file)

theorem map_imprint_members (r : Report) :
    r.members.map (·.imprint) = r.imprints := by
  simp only [imprints, members, marks, List.map_map, List.filter_map]
  rfl

/-- A report whose definitions match its elements. -/
def Defined (path : String) (r : Report) : Prop := Matches path r.imprints (r.relationsOf .defines)

/-- A name that may define something: the path, or the name of a type of the report. -/
def Owns (path : String) (r : Report) (name : String) : Prop :=
  name = path ∨ ∃ o ∈ r.imprints, o.kind.IsType ∧ o.name = name

variable {place : Place} {r : Report}

/-! ## One fact -/

theorem relationsOf_relate_of_ne {source target : String} {kind : RelationKind} {line : Nat}
    {properties : List (String × Json)} (h : kind ≠ .defines) :
    (r.relate place source target kind line properties).relationsOf .defines =
      r.relationsOf .defines := by
  simp [relationsOf, relate, addRelation, Relation.atLine, Relation.note, h]

theorem relationsOf_record_of_plain {f : Fact} (h : f.Plain) :
    (r.record place f).relationsOf .defines = r.relationsOf .defines := by
  cases f with
  | declare owner d => exact h.elim
  | relate source target kind line properties => exact relationsOf_relate_of_ne h
  | inject owner target line properties => exact relationsOf_relate_of_ne (by decide)
  | close position content lastLine => rfl

theorem imprints_record (f : Fact) :
    (r.record place f).imprints = r.imprints ++ f.imprints := by
  rw [imprints, marks_record, List.map_append, List.filter_append]
  cases f <;> rfl

/-- A declaration by an owner in the report keeps the definitions matched. -/
theorem Defined.declare {owner : String} {d : Declaration} (h : r.Defined place.path)
    (howner : r.Owns place.path owner) (hkind : d.kind ≠ .file) :
    (r.record place (.declare owner d)).Defined place.path := by
  have himprints : (r.record place (.declare owner d)).imprints = r.imprints ++ [d.imprint] := by
    rw [imprints_record]
    simp [Fact.imprints, Declaration.imprint, hkind]
  have hdefinitions : (r.record place (.declare owner d)).relationsOf .defines =
      r.relationsOf .defines ++
        [{ source := owner, target := d.name, kind := .defines, context := place.context
           properties := [("line_number", .nat d.lineNumber)] }] := by
    simp only [relationsOf, record, relate, addRelation, addElement, List.filter_append]
    rfl
  rw [Defined, himprints, hdefinitions]
  exact Matches.snoc h rfl rfl howner

theorem Defined.of_plain {f : Fact} (h : r.Defined place.path) (hf : f.Plain) :
    (r.record place f).Defined place.path := by
  have himprints : (r.record place f).imprints = r.imprints := by
    rw [imprints_record, hf.imprints_eq, List.append_nil]
  rw [Defined, himprints, relationsOf_record_of_plain hf]
  exact h

theorem Defined.record {known : List String} {f : Fact} (h : r.Defined place.path)
    (hknown : ∀ name ∈ known, r.Owns place.path name) (hf : f.Fits known) :
    (r.record place f).Defined place.path := by
  cases f with
  | declare owner d => exact h.declare (hknown owner hf.1) hf.2
  | relate | inject | close => exact h.of_plain hf

theorem Owns.record {path name : String} (h : r.Owns path name) (f : Fact) :
    (r.record place f).Owns path name := by
  refine h.imp_right ?_
  rintro ⟨o, ho, htype, hname⟩
  refine ⟨o, ?_, htype, hname⟩
  rw [imprints_record]
  exact List.mem_append_left _ ho

/-- A type owns from when it is recorded. -/
theorem owns_of_mem_typeNames {f : Fact} {path name : String} (h : name ∈ f.typeNames) :
    (r.record place f).Owns path name := by
  cases f with
  | declare owner d =>
    rw [Fact.typeNames] at h
    split at h
    · next htype =>
      rw [List.mem_singleton.mp h]
      refine .inr ⟨d.imprint, ?_, htype, rfl⟩
      rw [imprints_record]
      exact List.mem_append_right _
        (List.mem_filter.mpr ⟨List.mem_singleton.mpr rfl, decide_eq_true htype.ne_file⟩)
    · cases h
  | relate | inject | close => cases h

/-! ## All facts -/

/-- Facts in the order of ownership keep the definitions matched. -/
theorem Defined.recordAll {known : List String} {facts : List Fact} (h : r.Defined place.path)
    (hknown : ∀ name ∈ known, r.Owns place.path name) (hfacts : Owned known facts) :
    (r.recordAll place facts).Defined place.path := by
  induction hfacts generalizing r with
  | nil => exact h
  | @cons known f rest hf hrest ih =>
    refine ih (h.record hknown hf) ?_
    intro name hname
    rcases List.mem_append.mp hname with hname | hname
    · exact (hknown name hname).record f
    · exact owns_of_mem_typeNames hname

/-- The definitions of every report that a survey grows match its elements. -/
theorem Grown.defined {content : String} (h : Grown place content r) : r.Defined place.path := by
  induction h with
  | opening language => exact Matches.nil
  | fail h failure ih => exact ih
  | @updateFile r h f hf ih =>
    have himprints : (r.updateFile f).imprints = r.imprints := by
      rw [imprints, marks_updateFile hf, imprints]
    rw [Defined, himprints]
    exact ih
  | recordAll h hfacts ih =>
    refine ih.recordAll ?_ hfacts
    intro name hname
    exact .inl (List.mem_singleton.mp hname)
  | @detect r h settings name rules scene hpath hcontext ih =>
    obtain ⟨errors, hdetect⟩ := r.detect_eq settings (.ofRules name rules) scene
    rw [hdetect]
    exact ih

end Report

/-! ## The surveys -/

/-- The front ends for texts: those for sources and configurations, for templates and for JSON. -/
def textFrontends (settings : Settings) : List Frontend :=
  sourceFrontends settings ++ [Arm.frontend settings, JsonFile.frontend settings]

/-- Every front end for texts gives a report whose definitions match its elements. -/
theorem defined_of_mem_textFrontends {settings : Settings} (fs : FileSystem) (source : Source)
    {f : Frontend} (hf : f ∈ textFrontends settings) :
    ∃ r, f.survey fs source = .ok r ∧ r.Defined source.path := by
  simp only [textFrontends, List.mem_append, List.mem_cons, List.not_mem_nil, or_false] at hf
  rcases hf with hf | rfl | rfl
  · obtain ⟨r, hr, hgrown⟩ := grown_of_mem_sourceFrontends fs source hf
    exact ⟨r, hr, hgrown.defined⟩
  · refine ⟨_, rfl, ?_⟩
    rcases Arm.grown_survey settings fs source with hgrown | ⟨helements, hrelations⟩
    · exact hgrown.defined
    · simp only [Report.Defined, Report.imprints, Report.marks, Report.relationsOf, helements,
        hrelations]
      exact Matches.nil
  · exact ⟨_, rfl, (JsonFile.grown_survey settings fs source).defined⟩

/-- Whatever a front end for texts surveys, the definitions of its report match the elements other
than the file one by one and in order: each gives the name and the line of its element, and comes
from the path of the file or from a type that stands before the element. -/
theorem definitions_match_members (settings : Settings) (fs : FileSystem) (source : Source)
    {f : Frontend} (hf : f ∈ textFrontends settings) :
    ∃ r, f.survey fs source = .ok r ∧
      (r.relationsOf .defines).map (·.target) = r.members.map (·.name) ∧
      (r.relationsOf .defines).map (·.properties.get? "line_number") =
        r.members.map (fun e => some (.nat e.lineNumber)) ∧
      ∀ k rel, (r.relationsOf .defines)[k]? = some rel →
        rel.source = source.path ∨
          ∃ e ∈ r.members.take k, (e.kind = .type ∨ e.kind = .interface) ∧ e.name = rel.source := by
  obtain ⟨r, hr, hdefined⟩ := defined_of_mem_textFrontends fs source hf
  rw [Report.Defined, ← r.map_imprint_members] at hdefined
  refine ⟨r, hr, ?_, ?_, ?_⟩
  · rw [hdefined.map_target, List.map_map]
    rfl
  · rw [hdefined.map_line, List.map_map]
    rfl
  · intro k rel hrel
    refine (hdefined.owner hrel).imp_right ?_
    rintro ⟨o, ho, htype, hname⟩
    rw [← List.map_take] at ho
    obtain ⟨e, he, rfl⟩ := List.mem_map.mp ho
    exact ⟨e, he, htype, hname⟩

/-- A class with a method. -/
def nestedSource : Source where
  path := "a.vb"
  content := "Class A\nSub F()\nEnd Sub\nEnd Class"

/-- The definitions of a class and of its method. -/
theorem targets_nestedSource :
    ∃ r, (VisualBasic.frontend {}).survey {} nestedSource = .ok r ∧
      (r.relationsOf .defines).map (·.target) = ["A", "A.F"] := by
  have hf : VisualBasic.frontend {} ∈ textFrontends {} := by
    simp [textFrontends, sourceFrontends]
  obtain ⟨r, hr, htargets, -⟩ := definitions_match_members {} {} nestedSource hf
  refine ⟨r, hr, ?_⟩
  have hsurvey : VisualBasic.survey {} {} nestedSource = r := Except.ok.inj hr
  rw [htargets, ← hsurvey]
  decide +kernel

end CodeSurvey
