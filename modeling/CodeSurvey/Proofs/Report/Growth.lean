import CodeSurvey.Frontend.Project
import CodeSurvey.Proofs.Ownership.Documents
import CodeSurvey.Proofs.Ownership.Lines
import CodeSurvey.Proofs.Ownership.Trees

/-!
# How a survey grows its report

All front ends make their reports in the same few steps: a report opens with the element of the
file, and then failures, notes on the file, facts in the order of ownership and findings are added.
What holds of every report must be shown for these steps only.
-/

namespace CodeSurvey

/-- Reports that the steps of a survey make, for a file in a place with a content. -/
inductive Report.Grown (place : Place) (content : String) : Report → Prop
  | opening (language : String) : Grown place content (opening place content language)
  | fail {r : Report} (h : Grown place content r) (failure : Failure) :
      Grown place content (r.fail failure)
  /-- A note on the file that leaves its imprint as it is. -/
  | updateFile {r : Report} (h : Grown place content r) {f : Declaration → Declaration}
      (hf : ∀ d, (f d).imprint = d.imprint) : Grown place content (r.updateFile f)
  | recordAll {r : Report} (h : Grown place content r) {facts : List Fact}
      (hfacts : Owned [place.path] facts) : Grown place content (r.recordAll place facts)
  /-- What rules find in a scene of the file. -/
  | detect {r : Report} (h : Grown place content r) (settings : DetectorSettings) (name : String)
      (rules : List Rule) {scene : Scene} (hpath : scene.filePath = place.path)
      (hcontext : scene.context = place.context) :
      Grown place content (r.detect settings (.ofRules name rules) scene)

namespace Report.Grown

variable {place : Place} {content : String} {r : Report}

theorem flagSyntaxError (h : Grown place content r) (line : Nat) :
    Grown place content (r.flagSyntaxError line) := by
  apply h.updateFile
  intro d
  rw [Declaration.imprint_note _ _ (by decide), Declaration.imprint_note _ _ (by decide)]

theorem flagSyntaxError? (h : Grown place content r) (line : Option Nat) :
    Grown place content ((line.map r.flagSyntaxError).getD r) := by
  cases line with
  | none => exact h
  | some line => exact h.flagSyntaxError line

end Report.Grown

open Report (Grown)

section Texts

variable (settings : Settings) (fs : FileSystem) (source : Source)

/-- What the surveys of sources with syntax trees have in common. A syntax error is noted, and the
rest of the tree still counts. -/
def surveyOfTree (language : String) (bank : Bank) (facts : Tree → List Fact) : Report :=
  let place := source.place settings fs
  let report := Report.opening place source.content language
  if source.cancelled then report.fail (.cancelled source.path)
  else
    match source.tree with
    | none => report.fail (.unavailable "Failed to parse content")
    | some tree =>
      (((tree.firstErrorLine?.map report.flagSyntaxError).getD report).recordAll place
        (facts tree)).detect settings.detectors bank
        { filePath := source.path, context := place.context, source := source.content, tree := tree }

theorem grown_surveyOfTree (language name : String) (rules : List Rule)
    {facts : Tree → List Fact} (hfacts : ∀ tree, Owned [source.path] (facts tree)) :
    Grown (source.place settings fs) source.content
      (surveyOfTree settings fs source language (.ofRules name rules) facts) := by
  unfold surveyOfTree
  dsimp only
  split
  · exact (Grown.opening _).fail _
  · cases source.tree with
    | none => exact (Grown.opening _).fail _
    | some tree =>
      apply Grown.detect
      · exact ((Grown.opening _).flagSyntaxError? _).recordAll (hfacts tree)
      · rfl
      · rfl

theorem CSharp.grown_survey :
    Grown (source.place settings fs) source.content (survey settings fs source) :=
  grown_surveyOfTree settings fs source _ _ _ (owned_facts source.path source.content)

theorem TypeScript.grown_survey :
    Grown (source.place settings fs) source.content (survey settings fs source) :=
  grown_surveyOfTree settings fs source _ _ _ (owned_facts source.path source.content)

theorem Terraform.grown_survey :
    Grown (source.place settings fs) source.content (survey settings fs source) :=
  grown_surveyOfTree settings fs source _ _ _ (owned_facts source.path source.content)

theorem Python.grown_survey :
    Grown (source.place settings fs) source.content (survey settings fs source) := by
  unfold survey
  dsimp only
  split
  · exact (Grown.opening _).fail _
  · cases checkedTree source.path source.tree with
    | error failure =>
      apply Grown.fail
      split
      · exact (Grown.opening _).flagSyntaxError _
      · exact Grown.opening _
    | ok tree =>
      apply Grown.detect
      · exact (Grown.opening _).recordAll (owned_facts _ _ _)
      · rfl
      · rfl

/-- What the surveys of sources that are read line by line have in common. -/
def surveyOfLines (language : String) (bank : Bank) (facts : List Fact) : Report :=
  let place := source.place settings fs
  let report := Report.opening place source.content language
  if source.cancelled then report.fail (.cancelled source.path)
  else
    (report.recordAll place facts).detect settings.detectors bank
      { filePath := source.path, context := place.context, source := source.content }

theorem grown_surveyOfLines (language name : String) (rules : List Rule) {facts : List Fact}
    (hfacts : Owned [source.path] facts) :
    Grown (source.place settings fs) source.content
      (surveyOfLines settings fs source language (.ofRules name rules) facts) := by
  unfold surveyOfLines
  dsimp only
  split
  · exact (Grown.opening _).fail _
  · apply Grown.detect
    · exact (Grown.opening _).recordAll hfacts
    · rfl
    · rfl

theorem VisualBasic.grown_survey :
    Grown (source.place settings fs) source.content (survey settings fs source) :=
  grown_surveyOfLines settings fs source _ _ _ (owned_facts source.path source.content)

theorem Dart.grown_survey :
    Grown (source.place settings fs) source.content (survey settings fs source) :=
  grown_surveyOfLines settings fs source _ _ _ (owned_facts source.path source.content)

theorem Bicep.grown_survey :
    Grown (source.place settings fs) source.content (survey settings fs source) := by
  unfold survey
  dsimp only
  split
  · exact (Grown.opening _).fail _
  · apply Grown.detect
    · refine Grown.recordAll (Grown.updateFile (Grown.opening _) ?_)
        (owned_facts (Template.ofText source.path source.content))
      intro d
      exact d.imprint_noteText? _ (by decide)
    · rfl
    · rfl

theorem JsonFile.grown_survey :
    Grown (source.place settings fs) source.content (survey settings fs source) := by
  unfold survey
  dsimp only
  split
  · exact (Grown.opening _).fail _
  · refine Grown.recordAll (Grown.updateFile (Grown.opening _) ?_) (owned_facts _ _ _)
    intro d
    rw [Declaration.imprint_note _ _ (by decide), Declaration.imprint_note _ _ (by decide)]

/-- A template grows its report like any other source; what is no template gives a report without
elements and relations. -/
theorem Arm.grown_survey :
    Grown (source.place settings fs) source.content (survey settings fs source) ∨
      ((survey settings fs source).elements = [] ∧ (survey settings fs source).relations = []) := by
  unfold survey
  split
  · exact .inr ⟨rfl, rfl⟩
  · split
    · exact .inr ⟨rfl, rfl⟩
    · split_ifs
      · left
        apply Grown.detect
        · refine Grown.recordAll (Grown.updateFile (Grown.opening _) ?_) (owned_facts _ _ _)
          intro d
          rw [Declaration.imprint_noteText? _ _ (by decide),
            Declaration.imprint_noteText? _ _ (by decide)]
        · rfl
        · rfl
      · exact .inr ⟨rfl, rfl⟩

end Texts

/-- The front ends for source texts and configurations. -/
def sourceFrontends (settings : Settings) : List Frontend := [
  CSharp.frontend settings, VisualBasic.frontend settings, TypeScript.frontend settings,
  Python.frontend settings, Dart.frontend settings, Terraform.frontend settings,
  Bicep.frontend settings]

/-- A front end for source texts always gives a report that was grown for the source. -/
theorem grown_of_mem_sourceFrontends {settings : Settings} (fs : FileSystem) (source : Source)
    {f : Frontend} (hf : f ∈ sourceFrontends settings) :
    ∃ r, f.survey fs source = .ok r ∧ Grown (source.place settings fs) source.content r := by
  simp only [sourceFrontends, List.mem_cons, List.not_mem_nil, or_false] at hf
  rcases hf with rfl | rfl | rfl | rfl | rfl | rfl | rfl
  · exact ⟨_, rfl, CSharp.grown_survey settings fs source⟩
  · exact ⟨_, rfl, VisualBasic.grown_survey settings fs source⟩
  · exact ⟨_, rfl, TypeScript.grown_survey settings fs source⟩
  · exact ⟨_, rfl, Python.grown_survey settings fs source⟩
  · exact ⟨_, rfl, Dart.grown_survey settings fs source⟩
  · exact ⟨_, rfl, Terraform.grown_survey settings fs source⟩
  · exact ⟨_, rfl, Bicep.grown_survey settings fs source⟩

/-! ## Solutions and project files -/

namespace Project

/-- No property of a project is noted in place of the digest of the file. -/
def Progress.LeavesDigest (p : Progress) : Prop := ∀ e ∈ p.properties, e.1 ≠ "content_hash"

theorem propertyKey?_ne {name key : String} (h : propertyKey? name = some key) :
    key ≠ "content_hash" := by
  unfold propertyKey? at h
  split at h <;> simp only [Option.some.injEq, reduceCtorEq] at h <;> subst h <;> decide

theorem Progress.LeavesDigest.openTag {p : Progress} (h : p.LeavesDigest) (tag : Markup.Tag)
    (line : Nat) : (p.openTag tag line).LeavesDigest := by
  intro e he
  rcases List.mem_append.mp he with he | he
  · exact h e he
  · obtain ⟨value, _, rfl⟩ := List.mem_map.mp he
    exact show "sdk" ≠ "content_hash" by decide

theorem Progress.LeavesDigest.text {p : Progress} (h : p.LeavesDigest) (value : String) :
    (p.text value).LeavesDigest := by
  unfold Progress.text
  split
  · exact h
  · intro e he
    rcases List.mem_append.mp he with he | he
    · exact h e he
    · obtain ⟨key, hkey, rfl⟩ := List.mem_map.mp he
      exact propertyKey?_ne (Option.mem_toList.mp hkey)
  · exact h

theorem Progress.LeavesDigest.closeTag {p : Progress} (h : p.LeavesDigest) :
    p.closeTag.LeavesDigest := by
  unfold Progress.closeTag
  split
  · exact h
  · exact h
  · split <;> exact h

theorem Progress.LeavesDigest.next {content : String} {p p' : Progress} {e : Markup.Located}
    (h : p.LeavesDigest) (hnext : p.next content e = .ok p') : p'.LeavesDigest := by
  unfold Progress.next at hnext
  split at hnext
  · cases hnext
    exact h.openTag _ _
  · cases hnext
    exact h
  · cases hnext
    exact h.closeTag
  · cases hnext
    exact h
  · split at hnext
    · cases hnext
      exact h.text _
    · cases hnext

theorem Progress.LeavesDigest.foldlM {content : String} {events : List Markup.Located} {p p' : Progress}
    (h : p.LeavesDigest) (hread : events.foldlM (Progress.next content) p = .ok p') :
    p'.LeavesDigest := by
  induction events generalizing p with
  | nil =>
    cases hread
    exact h
  | cons e rest ih =>
    rw [List.foldlM_cons] at hread
    cases hnext : p.next content e with
    | error complaint =>
      rw [hnext] at hread
      cases hread
    | ok q =>
      rw [hnext] at hread
      exact ih (h.next hnext) hread

theorem leavesDigest_readProject {content : String} {p : Progress}
    (h : readProject content = .ok p) : p.LeavesDigest := by
  have hstart : Progress.LeavesDigest {} := by simp [Progress.LeavesDigest]
  unfold readProject at h
  cases hread : (Markup.read content).events.foldlM (Progress.next content) {} with
  | error complaint =>
    simp only [hread] at h
    cases h
  | ok q =>
    simp only [hread] at h
    cases hfault : (Markup.read content).fault with
    | none =>
      simp only [hfault] at h
      cases h
      exact hstart.foldlM hread
    | some fault =>
      simp only [hfault] at h
      cases h

theorem imprint_noteAll {properties : List (String × String)}
    (h : ∀ e ∈ properties, e.1 ≠ "content_hash") (d : Declaration) :
    (properties.foldl (fun d e => d.note e.1 (propertyValue e.1 e.2)) d).imprint = d.imprint := by
  induction properties generalizing d with
  | nil => rfl
  | cons e rest ih =>
    rw [List.foldl_cons, ih (fun e' he' => h e' (List.mem_cons_of_mem _ he'))]
    exact d.imprint_note _ (h e List.mem_cons_self)

variable {place : Place} {content : String} {r : Report}

theorem grown_addSolution (h : Grown place content r) :
    Grown place content (addSolution place content r) := by
  refine Grown.recordAll (h.updateFile ?_) (Owned.of_plain (by simp [entryFact]))
  intro d
  rw [Declaration.imprint_addDependencies, Declaration.imprint_noteText? _ _ (by decide)]

theorem grown_addProject (h : Grown place content r) :
    Grown place content (addProject place content r) := by
  unfold addProject
  cases hread : readProject content with
  | error complaint => exact h.fail _
  | ok p =>
    refine Grown.recordAll (h.updateFile ?_) (Owned.of_plain (by simp [referenceFact]))
    intro d
    rw [Declaration.imprint_addDependencies, imprint_noteAll (leavesDigest_readProject hread)]

/-- A file that can be read grows its report like any other. -/
theorem grown_survey (settings : Settings) {fs : FileSystem} {path : String}
    (context : Option String) (hread : fs.readText path = .ok content) :
    Grown ⟨path, Context.resolve settings.context fs path context⟩ content
      (survey settings fs path context false) := by
  simp only [survey, hread, Bool.false_eq_true, if_false]
  split
  · exact grown_addSolution (Grown.opening _)
  · exact (grown_addProject (Grown.opening _)).detect _ _ _ rfl rfl

end Project

end CodeSurvey
