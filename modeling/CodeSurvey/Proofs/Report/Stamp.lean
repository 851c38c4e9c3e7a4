import CodeSurvey.Proofs.Report.Growth

/-!
# Stamped reports

Everything in a report carries the path and the context of the file that it is about. The file is
the first element and the only one of its kind, and it carries the digest of its whole content.
-/

namespace CodeSurvey

/-! ## Findings -/

/-- A finding that carries a path and a context. -/
def Finding.Stamped (place : Place) (f : Finding) : Prop :=
  f.filePath = place.path ∧ f.context = place.context

theorem Rule.stamped_of_mem_findings {rule : Rule} {scene : Scene} {f : Finding}
    (hf : f ∈ rule.findings scene) : f.Stamped ⟨scene.filePath, scene.context⟩ := by
  unfold Rule.findings at hf
  split at hf
  · obtain ⟨hit, _, rfl⟩ := List.mem_map.mp hf
    exact ⟨rfl, rfl⟩
  · cases hf

/-- A detector all of whose findings carry path and context of the scene. -/
def Detector.Stamps (d : Detector) : Prop :=
  ∀ scene findings, d.inspect scene = .ok findings →
    ∀ f ∈ findings, f.Stamped ⟨scene.filePath, scene.context⟩

theorem Rule.stamps_detector (rule : Rule) : rule.detector.Stamps := by
  intro scene findings h f hf
  cases h
  exact Rule.stamped_of_mem_findings hf

namespace Bank

/-- What a bank of rules finds in a scene carries the path and the context of the scene. -/
theorem stamped_run (name : String) (rules : List Rule) (disabled : List String) (scene : Scene) :
    ∀ f ∈ (((ofRules name rules).without disabled).run scene).findings,
      f.Stamped ⟨scene.filePath, scene.context⟩ := by
  intro f hf
  rw [run_without_ofRules] at hf
  obtain ⟨rule, -, hf⟩ := List.mem_flatMap.mp hf
  exact rule.stamps_detector scene _ rfl f hf

end Bank

/-! ## Reports -/

namespace Report

/-- The marks of a file with a digest in a place: first the mark of the file, which has the name of
the path, then those of other elements in the same place. -/
def StampedMarks (place : Place) (digest : String) (marks : List (Imprint × Place)) : Prop :=
  ∃ file rest, marks = (file, place) :: rest ∧ file.kind = .file ∧ file.name = place.path ∧
    file.digest = some (.str digest) ∧ ∀ m ∈ rest, m.1.kind ≠ .file ∧ m.2 = place

/-- A report all of which carries the place of its file. -/
structure Stamped (place : Place) (digest : String) (r : Report) : Prop where
  filePath : r.filePath = place.path
  marks : StampedMarks place digest r.marks
  relations : ∀ rel ∈ r.relations, rel.context = place.context
  findings : ∀ f ∈ r.findings, f.Stamped place

variable {place : Place} {digest : String} {r : Report}

theorem StampedMarks.append {marks more : List (Imprint × Place)}
    (h : StampedMarks place digest marks)
    (hmore : ∀ m ∈ more, m.1.kind ≠ .file ∧ m.2 = place) :
    StampedMarks place digest (marks ++ more) := by
  obtain ⟨file, rest, rfl, hkind, hname, hdigest, hrest⟩ := h
  refine ⟨file, rest ++ more, rfl, hkind, hname, hdigest, ?_⟩
  intro m hm
  exact (List.mem_append.mp hm).elim (hrest m) (hmore m)

theorem stamped_opening (place : Place) (content language : String) :
    (opening place content language).Stamped place (Digest.ofText content) where
  filePath := rfl
  marks := by
    refine ⟨_, [], rfl, rfl, rfl, ?_, by simp⟩
    simp [Declaration.toElement, Declaration.imprint, fileDeclaration, Fields.ofList,
      Fields.get?_set]
  relations := by simp [opening]
  findings := by simp [opening]

/-! ## One fact -/

theorem context_of_mem_relate {source target : String} {kind : RelationKind} {line : Nat}
    {properties : List (String × Json)} (h : ∀ rel ∈ r.relations, rel.context = place.context) :
    ∀ rel ∈ (r.relate place source target kind line properties).relations,
      rel.context = place.context := by
  intro rel hrel
  rcases List.mem_append.mp hrel with hrel | hrel
  · exact h rel hrel
  · rw [List.mem_singleton.mp hrel, Relation.context_notes]
    rfl

theorem context_of_mem_record (h : ∀ rel ∈ r.relations, rel.context = place.context) (f : Fact) :
    ∀ rel ∈ (r.record place f).relations, rel.context = place.context := by
  cases f with
  | declare | relate | inject => exact context_of_mem_relate h
  | close position content lastLine => exact h

/-- A fact that declares no file keeps a report stamped. -/
theorem Stamped.record {known : List String} {f : Fact} (h : r.Stamped place digest)
    (hf : f.Fits known) : (r.record place f).Stamped place digest where
  filePath := by
    cases f <;> exact h.filePath
  marks := by
    rw [marks_record]
    refine h.marks.append ?_
    cases f with
    | declare owner d =>
      intro m hm
      rw [List.mem_singleton.mp hm]
      exact ⟨hf.2, rfl⟩
    | relate | inject | close => exact nofun
  relations := context_of_mem_record h.relations f
  findings := by
    cases f <;> exact h.findings

/-! ## All steps -/

theorem Stamped.recordAll {known : List String} {facts : List Fact} (h : r.Stamped place digest)
    (hfacts : Owned known facts) : (r.recordAll place facts).Stamped place digest := by
  induction hfacts generalizing r with
  | nil => exact h
  | cons hf hrest ih => exact ih (h.record hf)

theorem Stamped.updateFile {f : Declaration → Declaration} (h : r.Stamped place digest)
    (hf : ∀ d, (f d).imprint = d.imprint) : (r.updateFile f).Stamped place digest where
  filePath := h.filePath
  marks := by
    rw [marks_updateFile hf]
    exact h.marks
  relations := h.relations
  findings := h.findings

theorem Stamped.detect (h : r.Stamped place digest) (settings : DetectorSettings) (name : String)
    (rules : List Rule) {scene : Scene} (hpath : scene.filePath = place.path)
    (hcontext : scene.context = place.context) :
    (r.detect settings (.ofRules name rules) scene).Stamped place digest := by
  obtain ⟨errors, hdetect⟩ := r.detect_eq settings (.ofRules name rules) scene
  rw [hdetect]
  refine ⟨h.filePath, h.marks, h.relations, ?_⟩
  intro f hf
  rcases List.mem_append.mp hf with hf | hf
  · exact h.findings f hf
  · have hstamped := Bank.stamped_run name rules settings.disabled _ f hf
    exact ⟨hstamped.1.trans hpath, hstamped.2.trans hcontext⟩

/-- Every report that a survey grows is stamped with the place and the digest of its file. -/
theorem Grown.stamped {content : String} (h : Grown place content r) :
    r.Stamped place (Digest.ofText content) := by
  induction h with
  | opening language => exact stamped_opening place content language
  | fail h failure ih => exact ⟨ih.filePath, ih.marks, ih.relations, ih.findings⟩
  | updateFile h hf ih => exact ih.updateFile hf
  | recordAll h hfacts ih => exact ih.recordAll hfacts
  | detect h settings name rules hpath hcontext ih =>
    exact ih.detect settings name rules hpath hcontext

/-! ## Moving a report -/

theorem swap_self (old new : String) : swap old new old = new := if_pos rfl

def relocateMark (old new : String) (m : Imprint × Place) : Imprint × Place :=
  ({ m.1 with name := swap old new m.1.name }, { m.2 with path := swap old new m.2.path })

theorem marks_relocate {old new : String} (h : old ≠ new) :
    (r.relocate old new).marks = r.marks.map (relocateMark old new) := by
  simp only [relocate, if_neg h, marks, List.map_map]
  rfl

/-- A report that is moved carries the new path in all places. -/
theorem Stamped.relocate {path context : String} (h : r.Stamped ⟨path, context⟩ digest)
    (new : String) : (r.relocate path new).Stamped ⟨new, context⟩ digest := by
  by_cases hnew : path = new
  · subst hnew
    simpa [Report.relocate] using h
  · refine ⟨by simp [Report.relocate, hnew], ?_, ?_, ?_⟩
    · obtain ⟨file, rest, hmarks, hkind, hname, hdigest, hrest⟩ := h.marks
      rw [marks_relocate hnew, hmarks, List.map_cons]
      refine ⟨_, _, congrArg (List.cons · _) (Prod.ext rfl ?_), hkind, ?_, hdigest, ?_⟩
      · simp [relocateMark, swap_self]
      · simp [relocateMark, hname, swap_self]
      · intro m hm
        obtain ⟨m', hm', rfl⟩ := List.mem_map.mp hm
        obtain ⟨hkind', hplace'⟩ := hrest m' hm'
        refine ⟨hkind', ?_⟩
        simp [relocateMark, hplace', swap_self]
    · intro rel hrel
      simp only [Report.relocate, if_neg hnew] at hrel
      obtain ⟨rel', hrel', rfl⟩ := List.mem_map.mp hrel
      exact h.relations rel' hrel'
    · intro f hf
      simp only [Report.relocate, if_neg hnew] at hf
      obtain ⟨f', hf', rfl⟩ := List.mem_map.mp hf
      obtain ⟨hpath, hcontext⟩ := h.findings f' hf'
      exact ⟨by simp [hpath, swap_self], hcontext⟩

/-! ## The elements of a stamped report -/

/-- The file comes first, and all elements carry its path and its context. -/
theorem Stamped.elements (h : r.Stamped place digest) :
    ∃ file rest, r.elements = file :: rest ∧ file.kind = .file ∧ file.name = place.path ∧
      file.metadata.get? "content_hash" = some (.str digest) ∧ (∀ e ∈ rest, e.kind ≠ .file) ∧
      ∀ e ∈ r.elements, e.filePath = place.path ∧ e.context = place.context := by
  obtain ⟨_, _, hmarks, hkind, hname, hdigest, hrest⟩ := h.marks
  obtain ⟨file, rest, helements, hfile, rfl⟩ := List.map_eq_cons_iff.mp hmarks
  obtain ⟨rfl, rfl⟩ := Prod.mk.inj hfile
  have hmark (e : Element) (he : e ∈ rest) := hrest e.mark (List.mem_map_of_mem he)
  refine ⟨file, rest, helements, hkind, hname, hdigest, fun e he => (hmark e he).1, ?_⟩
  intro e he
  rw [helements] at he
  rcases List.mem_cons.mp he with rfl | he
  · exact ⟨rfl, rfl⟩
  · have hplace := (hmark e he).2
    exact ⟨congrArg Place.path hplace, congrArg Place.context hplace⟩

theorem Stamped.ne_nil (h : r.Stamped place digest) : r.elements ≠ [] := by
  obtain ⟨file, rest, helements, -⟩ := h.elements
  rw [helements]
  exact List.cons_ne_nil file rest

theorem Stamped.attachFindings (h : r.Stamped place digest) :
    r.attachFindings.Stamped place digest :=
  h.updateFile fun d => d.imprint_note _ (by decide)

/-- Attaching findings puts all of them, as data, on the element of the file. -/
theorem Stamped.detectedPatterns (h : r.Stamped place digest) (file : Element)
    (hfile : r.attachFindings.elements.head? = some file) :
    file.metadata.get? "detected_patterns" =
      some (.arr (r.attachFindings.findings.map Finding.toMetadata)) := by
  obtain ⟨file', rest, helements, hkind, -⟩ := h.elements
  rw [Report.attachFindings, Report.updateFile, helements, modifyFirst,
    if_pos (by simpa using hkind)] at hfile
  obtain rfl := Option.some.inj hfile
  exact Fields.get?_set_self _ _ _

end Report

end CodeSurvey
