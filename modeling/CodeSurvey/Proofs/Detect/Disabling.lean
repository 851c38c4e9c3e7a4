import CodeSurvey.Proofs.Report.Growth

/-!
# Leaving detectors out

Leaving detectors out of a survey takes away what they would have contributed, their findings and
their failures, and changes nothing else. This rests on three facts: a detector signs its findings
with its own name, a bank runs its detectors one by one whatever the others do, and all that a
survey does before detection does not ask which detectors are left out.
-/

namespace CodeSurvey

/-! ## Names -/

/-- A name that is one of some names, up to the case of basic letters. -/
def NamedIn (names : List String) (name : String) : Prop :=
  ∃ n ∈ names, Text.lowerAscii name = Text.lowerAscii n

instance (names : List String) (name : String) : Decidable (NamedIn names name) :=
  inferInstanceAs (Decidable (∃ n ∈ names, Text.lowerAscii name = Text.lowerAscii n))

theorem isDisabled_iff (disabled : List String) (name : String) :
    isDisabled disabled name = true ↔ NamedIn disabled name := by
  simp only [isDisabled, Text.sameIgnoringCase, List.any_eq_true, beq_iff_eq, NamedIn]

/-- An error that says that the detector with a name failed. -/
def BlamesDetector (name error : String) : Prop :=
  ("Detector " ++ name ++ " failed: ").toList <+: error.toList

instance (name error : String) : Decidable (BlamesDetector name error) :=
  inferInstanceAs (Decidable (("Detector " ++ name ++ " failed: ").toList <+: error.toList))

/-- The failure of one of the detectors with these names. -/
def Failure.Blames (names : List String) : Failure → Prop
  | detector name _ => NamedIn names name
  | _ => False

instance (names : List String) : (f : Failure) → Decidable (f.Blames names)
  | .detector name _ => inferInstanceAs (Decidable (NamedIn names name))
  | .unreadable .. | .badSyntax .. | .unavailable .. | .cancelled .. =>
    inferInstanceAs (Decidable False)

/-- Two words before the first blank of texts that begin alike are equal. -/
theorem eq_of_prefix_before_blank {a b s t : List Char} (ha : ' ' ∉ a) (hb : ' ' ∉ b)
    (h : a ++ ' ' :: s <+: b ++ ' ' :: t) : a = b := by
  induction a generalizing b with
  | nil =>
    cases b with
    | nil => rfl
    | cons d b =>
      obtain ⟨rfl, -⟩ := List.cons_prefix_cons.mp h
      simp at hb
  | cons c a ih =>
    cases b with
    | nil =>
      obtain ⟨rfl, -⟩ := List.cons_prefix_cons.mp h
      simp at ha
    | cons d b =>
      obtain ⟨rfl, hrest⟩ := List.cons_prefix_cons.mp h
      rw [ih (fun h => ha (List.mem_cons_of_mem _ h)) (fun h => hb (List.mem_cons_of_mem _ h))
        hrest]

theorem Failure.message_detector (name message : String) :
    (detector name message).message = "Detector " ++ name ++ " failed: " ++ message := rfl

/-- A failure blames the detector it names, where names have no blanks. -/
theorem blamesDetector_message_iff {name name' : String} (h : ' ' ∉ name.toList)
    (h' : ' ' ∉ name'.toList) (message : String) :
    BlamesDetector name (Failure.detector name' message).message ↔ name = name' := by
  have hblank : " failed: ".toList = ' ' :: "failed: ".toList := by decide
  simp only [BlamesDetector, Failure.message_detector, String.toList_append, List.append_assoc,
    List.prefix_append_right_inj, hblank, List.cons_append]
  constructor
  · intro hprefix
    exact String.toList_inj.mp (eq_of_prefix_before_blank h h' hprefix)
  · rintro rfl
    rw [List.prefix_append_right_inj, List.cons_prefix_cons]
    exact ⟨rfl, List.prefix_append _ _⟩

/-! ## Detectors and banks -/

namespace Detector

/-- A detector whose findings all carry its name. -/
def Signs (d : Detector) : Prop :=
  ∀ scene findings, d.inspect scene = .ok findings → ∀ f ∈ findings, f.name = d.name

/-- A detector that crashes on some scenes. -/
def interrupted (crash : Scene → Option Crash) (d : Detector) : Detector where
  name := d.name
  inspect scene :=
    match crash scene with
    | some c => .error c
    | none => d.inspect scene

theorem Signs.interrupted {d : Detector} (h : d.Signs) (crash : Scene → Option Crash) :
    (d.interrupted crash).Signs := by
  intro scene findings hinspect
  simp only [Detector.interrupted] at hinspect
  split at hinspect
  · cases hinspect
  · exact h scene findings hinspect

theorem Signs.name_of_mem_found {d : Detector} (h : d.Signs) {scene : Scene} {f : Finding}
    (hf : f ∈ d.found scene) : f.name = d.name := by
  unfold found at hf
  cases hinspect : d.inspect scene with
  | ok findings => exact h scene findings hinspect f (by simpa [hinspect, Except.toOption] using hf)
  | error crash => simp [hinspect, Except.toOption] at hf

end Detector

theorem Rule.signs_detector (rule : Rule) : rule.detector.Signs := by
  intro scene findings hinspect f hf
  obtain rfl := Except.ok.inj hinspect
  unfold Rule.findings at hf
  split at hf
  · obtain ⟨hit, -, rfl⟩ := List.mem_map.mp hf
    rfl
  · cases hf

/-- The outcome without what detectors with these names contributed. -/
def Outcome.without (o : Outcome) (names : List String) : Outcome where
  findings := o.findings.filter fun f => ¬ NamedIn names f.name
  failures := o.failures.filter fun f => ¬ f.Blames names

namespace Bank

variable {scene : Scene} {disabled : List String} {d : Detector}

/-- A detector that is left out contributes only what is taken away, and one that is kept
contributes the same. -/
theorem filter_found (hd : d.Signs) :
    (d.found scene).filter (fun f => ¬ NamedIn disabled f.name) =
      if isDisabled disabled d.name then [] else d.found scene := by
  split
  · next h =>
    refine List.filter_eq_nil_iff.mpr fun f hf => ?_
    simpa [hd.name_of_mem_found hf] using (isDisabled_iff _ _).mp h
  · next h =>
    refine List.filter_eq_self.mpr fun f hf => ?_
    simpa [hd.name_of_mem_found hf] using mt (isDisabled_iff _ _).mpr h

/-- Running the detectors that are kept gives what all give, less what is taken away. -/
theorem run_without {b : Bank} (hsigns : ∀ d ∈ b.detectors, d.Signs) (disabled : List String)
    (scene : Scene) : (b.without disabled).run scene = (b.run scene).without disabled := by
  obtain ⟨name, detectors⟩ := b
  rw [run_eq, run_eq, Outcome.without, without]
  congr 1
  · induction detectors with
    | nil => rfl
    | cons d rest ih =>
      obtain ⟨hd, hrest⟩ := List.forall_mem_cons.mp hsigns
      rw [List.flatMap_cons, List.filter_append, filter_found hd, ← ih hrest, List.filter_cons]
      cases isDisabled disabled d.name <;> rfl
  · rw [List.filterMap_filter, List.filter_filterMap]
    refine List.filterMap_congr fun d _ => ?_
    unfold Detector.failure?
    cases d.inspect scene with
    | ok findings => simp
    | error crash =>
      have hblames : (Failure.detector d.name crash.message).Blames disabled ↔
          isDisabled disabled d.name = true := (isDisabled_iff _ _).symm
      cases h : isDisabled disabled d.name <;> simp [Option.filter_some, hblames, h]

/-- Every failure of a run is that of a detector of the bank. -/
theorem exists_of_mem_failures {b : Bank} {f : Failure} (h : f ∈ (b.run scene).failures) :
    ∃ name ∈ b.names, ∃ message, f = .detector name message := by
  rw [run_eq] at h
  obtain ⟨d, hd, hfailure⟩ := List.mem_filterMap.mp h
  unfold Detector.failure? at hfailure
  split at hfailure
  · cases hfailure
  · next crash _ =>
    exact ⟨d.name, List.mem_map_of_mem hd, crash.message, (Option.some.inj hfailure).symm⟩

/-- A bank whose detectors sign their findings and have names without blanks. -/
structure Orderly (b : Bank) : Prop where
  signs : ∀ d ∈ b.detectors, d.Signs
  names : ∀ name ∈ b.names, ' ' ∉ name.toList

theorem orderly_ofRules (name : String) (rules : List Rule)
    (h : ∀ rule ∈ rules, ' ' ∉ rule.name.toList) : (ofRules name rules).Orderly where
  signs d hd := by
    obtain ⟨rule, -, rfl⟩ := List.mem_map.mp hd
    exact rule.signs_detector
  names ruleName hname := by
    obtain ⟨d, hd, rfl⟩ := List.mem_map.mp hname
    obtain ⟨rule, hrule, rfl⟩ := List.mem_map.mp hd
    exact h rule hrule

/-- The bank in which each detector crashes as said of its position. -/
def interrupted (crash : Nat → Scene → Option Crash) (b : Bank) : Bank :=
  { b with detectors := b.detectors.mapIdx fun i d => d.interrupted (crash i) }

theorem interrupted_none (b : Bank) : (b.interrupted fun _ _ => none) = b := by
  simp only [interrupted, Detector.interrupted]
  congr 1
  exact List.ext_getElem? fun i => by simp

theorem names_interrupted (crash : Nat → Scene → Option Crash) (b : Bank) :
    (b.interrupted crash).names = b.names := by
  refine List.ext_getElem? fun i => ?_
  simp [names, interrupted, Detector.interrupted, Function.comp_def]

/-- Crashes change neither names nor signatures. -/
theorem Orderly.interrupted {b : Bank} (h : b.Orderly) (crash : Nat → Scene → Option Crash) :
    (b.interrupted crash).Orderly where
  signs d hd := by
    obtain ⟨i, hi, rfl⟩ := List.mem_mapIdx.mp hd
    exact (h.signs _ (List.getElem_mem hi)).interrupted _
  names := by
    rw [names_interrupted]
    exact h.names

/-- Taking away failures by the detector they blame takes away their texts. -/
theorem map_message_without {b : Bank} (hnames : ∀ name ∈ b.names, ' ' ∉ name.toList)
    (disabled : List String) (scene : Scene) :
    ((b.run scene).without disabled).failures.map Failure.message =
      ((b.run scene).failures.map Failure.message).filter fun e =>
        ¬ ∃ name ∈ b.names, NamedIn disabled name ∧ BlamesDetector name e := by
  rw [List.filter_map]
  congr 1
  refine List.filter_congr fun f hf => ?_
  obtain ⟨name, hname, message, rfl⟩ := exists_of_mem_failures hf
  rw [Function.comp_apply, decide_eq_decide, not_iff_not]
  constructor
  · intro h
    exact ⟨name, hname, h, (blamesDetector_message_iff (hnames _ hname) (hnames _ hname) _).mpr rfl⟩
  · rintro ⟨blamed, hmem, hnamed, hblames⟩
    obtain rfl := (blamesDetector_message_iff (hnames _ hmem) (hnames _ hname) _).mp hblames
    exact hnamed

end Bank

/-! ## Reports before and after detection -/

/-- The text of a failure begins like that of a detector only if a detector failed. -/
theorem Failure.not_prefix_message {f : Failure} (h : ∀ name message, f ≠ .detector name message) :
    ¬ "Detector ".toList <+: f.message.toList := by
  cases f with
  | unreadable path reason =>
    change ¬ "Detector ".toList <+: ("IO error at " ++ path ++ ": " ++ reason).toList
    simp [List.cons_prefix_cons]
  | badSyntax path line message =>
    change ¬ "Detector ".toList <+:
      ("Syntax error in " ++ path ++ " at line " ++ Decimal.digitText line ++ ": " ++ message).toList
    simp [List.cons_prefix_cons]
  | unavailable message =>
    change ¬ "Detector ".toList <+: ("Parser error: " ++ message).toList
    simp [List.cons_prefix_cons]
  | cancelled path =>
    change ¬ "Detector ".toList <+: ("Parsing cancelled for " ++ path).toList
    simp [List.cons_prefix_cons]
  | detector name message => exact absurd rfl (h name message)

/-- The text of a failed detector does not begin like that of a syntax error. -/
theorem Bank.not_prefix_message_of_mem_failures {b : Bank} {scene : Scene} {f : Failure}
    (h : f ∈ (b.run scene).failures) : ¬ "Syntax error".toList <+: f.message.toList := by
  obtain ⟨name, -, message, rfl⟩ := Bank.exists_of_mem_failures h
  change ¬ "Syntax error".toList <+: ("Detector " ++ name ++ " failed: " ++ message).toList
  simp [List.cons_prefix_cons]

namespace Report

/-- The report without what the detectors of a bank with these names contributed. -/
def withoutDetectors (r : Report) (bank : Bank) (names : List String) : Report :=
  { r with
    findings := r.findings.filter fun f => ¬ NamedIn names f.name
    errors := r.errors.filter fun e =>
      ¬ ∃ name ∈ bank.names, NamedIn names name ∧ BlamesDetector name e }

/-- A report to which no detector has contributed yet. -/
structure Undetected (r : Report) : Prop where
  findings : r.findings = []
  errors : ∀ e ∈ r.errors, ¬ "Detector ".toList <+: e.toList

theorem undetected_failed (path : String) {failure : Failure}
    (h : ∀ name message, failure ≠ .detector name message) :
    (failed path failure.message).Undetected where
  findings := rfl
  errors e he := by
    rw [List.mem_singleton.mp he]
    exact failure.not_prefix_message h

theorem undetected_opening (place : Place) (content language : String) :
    (opening place content language).Undetected := ⟨rfl, nofun⟩

namespace Undetected

variable {r : Report}

theorem fail (h : r.Undetected) {failure : Failure}
    (hfailure : ∀ name message, failure ≠ .detector name message) :
    (r.fail failure).Undetected where
  findings := h.findings
  errors e he := by
    rcases List.mem_append.mp he with he | he
    · exact h.errors e he
    · rw [List.mem_singleton.mp he]
      exact failure.not_prefix_message hfailure

theorem updateFile (h : r.Undetected) (f : Declaration → Declaration) :
    (r.updateFile f).Undetected := ⟨h.findings, h.errors⟩

theorem flagSyntaxError? (h : r.Undetected) (line : Option Nat) :
    ((line.map r.flagSyntaxError).getD r).Undetected := by
  cases line with
  | none => exact h
  | some line => exact h.updateFile _

theorem record (h : r.Undetected) (place : Place) (fact : Fact) :
    (r.record place fact).Undetected := by
  cases fact <;> exact ⟨h.findings, h.errors⟩

theorem recordAll (h : r.Undetected) (place : Place) (facts : List Fact) :
    (r.recordAll place facts).Undetected := by
  induction facts generalizing r with
  | nil => exact h
  | cons fact rest ih => exact ih (h.record place fact)

/-- Nothing is taken away from what was there before detection. -/
theorem filter_errors (h : r.Undetected) (bank : Bank) (names : List String) :
    (r.errors.filter fun e =>
      ¬ ∃ name ∈ bank.names, NamedIn names name ∧ BlamesDetector name e) = r.errors := by
  refine List.filter_eq_self.mpr fun e he => ?_
  rw [decide_eq_true_iff]
  rintro ⟨name, -, -, hblames⟩
  apply h.errors e he
  refine List.IsPrefix.trans ?_ hblames
  rw [String.toList_append, String.toList_append, List.append_assoc]
  exact List.prefix_append _ _

theorem withoutDetectors (h : r.Undetected) (bank : Bank) (names : List String) :
    r.withoutDetectors bank names = r := by
  rw [Report.withoutDetectors, h.filter_errors, h.findings, List.filter_nil, ← h.findings]

/-- Leaving detectors out takes away from the detection what they contribute to it. -/
theorem detect (h : r.Undetected) {bank : Bank} (hbank : bank.Orderly)
    (settings : DetectorSettings) (disabled : List String) (scene : Scene) :
    r.detect { settings with disabled } bank scene =
      (r.detect { settings with disabled := [] } bank scene).withoutDetectors bank disabled := by
  have hall : bank.without [] = bank := by simp [Bank.without, isDisabled]
  simp only [Report.detect, foldl_fail, addFindings, Report.withoutDetectors, hall, h.findings,
    List.nil_append, List.filter_append, h.filter_errors]
  rw [Bank.run_without hbank.signs, Bank.map_message_without hbank.names]
  rfl

end Undetected

end Report

/-! ## Surveys -/

/-- A survey that ends in detection, or before it: what comes first knows neither the detectors
nor which of them are left out. -/
def EndsInDetection (survey : DetectorSettings → Bank → Report) : Prop :=
  ∃ draft : Report, draft.Undetected ∧
    ((∀ settings bank, survey settings bank = draft) ∨
      ∃ scene, ∀ settings bank, survey settings bank = draft.detect settings bank scene)

namespace EndsInDetection

variable {survey : DetectorSettings → Bank → Report}

theorem of_undetected {draft : Report} (h : draft.Undetected) :
    EndsInDetection fun _ _ => draft := ⟨draft, h, .inl fun _ _ => rfl⟩

theorem of_detect {draft : Report} (h : draft.Undetected) (scene : Scene) :
    EndsInDetection fun settings bank => draft.detect settings bank scene :=
  ⟨draft, h, .inr ⟨scene, fun _ _ => rfl⟩⟩

theorem survey_disabled (h : EndsInDetection survey) {bank : Bank} (hbank : bank.Orderly)
    (settings : DetectorSettings) (disabled : List String) :
    survey { settings with disabled } bank =
      (survey { settings with disabled := [] } bank).withoutDetectors bank disabled := by
  obtain ⟨draft, hdraft, hsame | ⟨scene, hdetect⟩⟩ := h
  · rw [hsame, hsame, hdraft.withoutDetectors]
  · rw [hdetect, hdetect]
    exact hdraft.detect hbank settings disabled scene

end EndsInDetection

open EndsInDetection (of_undetected of_detect)
open Report (undetected_opening undetected_failed)

section Texts

variable (settings : Settings) (fs : FileSystem) (source : Source)

theorem Source.place_detectors (detectors : DetectorSettings) :
    source.place { settings with detectors } fs = source.place settings fs := rfl

theorem surveyOfTree_endsInDetection (language : String) (facts : Tree → List Fact) :
    EndsInDetection fun detectors bank =>
      surveyOfTree { settings with detectors } fs source language bank facts := by
  simp only [surveyOfTree, Source.place_detectors]
  split_ifs
  · exact of_undetected ((undetected_opening _ _ _).fail nofun)
  · cases source.tree with
    | none => exact of_undetected ((undetected_opening _ _ _).fail nofun)
    | some tree =>
      exact of_detect (((undetected_opening _ _ _).flagSyntaxError? _).recordAll _ _) _

theorem surveyOfLines_endsInDetection (language : String) (facts : List Fact) :
    EndsInDetection fun detectors bank =>
      surveyOfLines { settings with detectors } fs source language bank facts := by
  simp only [surveyOfLines, Source.place_detectors]
  split_ifs
  · exact of_undetected ((undetected_opening _ _ _).fail nofun)
  · exact of_detect ((undetected_opening _ _ _).recordAll _ _) _

theorem Python.survey_endsInDetection :
    EndsInDetection fun detectors bank => survey { settings with detectors } fs source bank := by
  simp only [survey, checkedTree, Source.place_detectors]
  split_ifs
  · exact of_undetected ((undetected_opening _ _ _).fail nofun)
  · cases source.tree with
    | none => exact of_undetected ((undetected_opening _ _ _).fail nofun)
    | some tree =>
      dsimp only
      cases tree.firstErrorLine? with
      | some line =>
        exact of_undetected (((undetected_opening _ _ _).updateFile _).fail nofun)
      | none => exact of_detect ((undetected_opening _ _ _).recordAll _ _) _

theorem Bicep.survey_endsInDetection :
    EndsInDetection fun detectors bank => survey { settings with detectors } fs source bank := by
  simp only [survey, Source.place_detectors]
  split_ifs
  · exact of_undetected ((undetected_opening _ _ _).fail nofun)
  · exact of_detect (((undetected_opening _ _ _).updateFile _).recordAll _ _) _

theorem Arm.survey_endsInDetection :
    EndsInDetection fun detectors bank => survey { settings with detectors } fs source bank := by
  simp only [survey, surveyTemplate, Source.place_detectors]
  split_ifs
  · exact of_undetected (undetected_failed _ nofun)
  · cases Json.parse? source.content with
    | none => exact of_undetected ⟨rfl, nofun⟩
    | some document =>
      dsimp only
      split_ifs
      · exact of_detect (((undetected_opening _ _ _).updateFile _).recordAll _ _) _
      · exact of_undetected ⟨rfl, nofun⟩

theorem Project.undetected_addProject {place : Place} {content : String} {r : Report}
    (h : r.Undetected) : (addProject place content r).Undetected := by
  unfold addProject
  cases readProject content with
  | error c => exact h.fail nofun
  | ok p => exact (h.updateFile _).recordAll _ _

theorem Project.survey_endsInDetection (path : String) (context : Option String)
    (cancelled : Bool) :
    EndsInDetection fun detectors bank =>
      survey { settings with detectors } fs path context cancelled bank := by
  cases cancelled with
  | true => exact of_undetected (undetected_failed _ nofun)
  | false =>
    unfold survey
    cases fs.readText path with
    | error fault => exact of_undetected (undetected_failed _ nofun)
    | ok content =>
      cases hsolution : isSolution path with
      | true =>
        simp only [Bool.false_eq_true, if_false, if_true]
        exact of_undetected (((undetected_opening _ _ _).updateFile _).recordAll _ _)
      | false =>
        simp only [Bool.false_eq_true, if_false]
        exact of_detect (undetected_addProject (undetected_opening _ _ _)) _

end Texts

/-- A bank of detectors with the survey that asks it. -/
structure InspectedSurvey where
  bank : Bank
  survey : Settings → FileSystem → Source → Bank → Report

/-- The surveys that ask a bank of detectors. A solution or project file is read from the disk. -/
def inspectedSurveys : List InspectedSurvey := [
  ⟨Detect.CSharp.bank, @CSharp.survey⟩, ⟨Detect.VisualBasic.bank, @VisualBasic.survey⟩,
  ⟨Detect.TypeScript.bank, @TypeScript.survey⟩, ⟨Detect.Python.bank, @Python.survey⟩,
  ⟨Detect.Dart.bank, @Dart.survey⟩, ⟨Detect.Terraform.bank, @Terraform.survey⟩,
  ⟨Detect.Bicep.bank, @Bicep.survey⟩, ⟨Detect.Arm.bank, @Arm.survey⟩,
  ⟨Detect.Project.bank, fun settings fs source bank =>
    Project.survey settings fs source.path source.context source.cancelled bank⟩]

theorem orderly_of_mem_inspectedSurveys {s : InspectedSurvey} (hs : s ∈ inspectedSurveys) :
    s.bank.Orderly := by
  simp only [inspectedSurveys, List.mem_cons, List.not_mem_nil, or_false] at hs
  rcases hs with rfl | rfl | rfl | rfl | rfl | rfl | rfl | rfl | rfl <;>
    exact Bank.orderly_ofRules _ _ (by decide +kernel)

theorem endsInDetection_of_mem_inspectedSurveys {s : InspectedSurvey} (hs : s ∈ inspectedSurveys)
    (settings : Settings) (fs : FileSystem) (source : Source) :
    EndsInDetection fun detectors bank => s.survey { settings with detectors } fs source bank := by
  simp only [inspectedSurveys, List.mem_cons, List.not_mem_nil, or_false] at hs
  rcases hs with rfl | rfl | rfl | rfl | rfl | rfl | rfl | rfl | rfl
  · exact surveyOfTree_endsInDetection settings fs source _ (CSharp.facts _ _)
  · exact surveyOfLines_endsInDetection settings fs source _ (VisualBasic.facts _ _)
  · exact surveyOfTree_endsInDetection settings fs source _ (TypeScript.facts _ _)
  · exact Python.survey_endsInDetection settings fs source
  · exact surveyOfLines_endsInDetection settings fs source _ (Dart.facts _ _)
  · exact surveyOfTree_endsInDetection settings fs source _ (Terraform.facts _ _)
  · exact Bicep.survey_endsInDetection settings fs source
  · exact Arm.survey_endsInDetection settings fs source
  · exact Project.survey_endsInDetection settings fs _ _ _

def Settings.disabling (settings : Settings) (disabled : List String) : Settings :=
  { settings with detectors := { settings.detectors with disabled } }

/-- Leaving detectors out of a survey takes away the findings that carry their names and the errors
that blame them, and keeps all else as it is and in order, whichever detectors crash on the way. -/
theorem survey_disabling {s : InspectedSurvey} (hs : s ∈ inspectedSurveys) (settings : Settings)
    (fs : FileSystem) (source : Source) (disabled : List String) :
    (s.bank.interrupted fun _ _ => none) = s.bank ∧
      ∀ crash : Nat → Scene → Option Crash,
        let bank := s.bank.interrupted crash
        let all := s.survey (settings.disabling []) fs source bank
        s.survey (settings.disabling disabled) fs source bank =
          { all with
            findings := all.findings.filter fun f => ¬ NamedIn disabled f.name
            errors := all.errors.filter fun e =>
              ¬ ∃ name ∈ s.bank.names, NamedIn disabled name ∧ BlamesDetector name e } := by
  refine ⟨s.bank.interrupted_none, fun crash => ?_⟩
  have hbank := (orderly_of_mem_inspectedSurveys hs).interrupted crash
  have hends := endsInDetection_of_mem_inspectedSurveys hs settings fs source
  have hsurvey := hends.survey_disabled hbank settings.detectors disabled
  rw [Report.withoutDetectors, Bank.names_interrupted] at hsurvey
  exact hsurvey

/-- Of two detectors that crash and one that finds something, one that crashes is kept. -/
theorem survey_disabling_crashed :
    let s : InspectedSurvey := ⟨Detect.VisualBasic.bank, @VisualBasic.survey⟩
    let source : Source := { path := "m.vb", content := "On Error Resume Next" }
    let bank := s.bank.interrupted fun i _ => if i = 1 then none else some .silent
    let all := s.survey (Settings.disabling {} []) {} source bank
    let kept := s.survey (Settings.disabling {} ["VB_ONERRORRESUMENEXT",
      "vb_dependencyinjectionregistration"]) {} source bank
    s ∈ inspectedSurveys ∧ all.findings.map (·.name) = ["VB_OnErrorResumeNext"] ∧
      all.errors = ["Detector VB_DependencyInjectionRegistration failed: unknown panic",
        "Detector VB_HardcodedSecret failed: unknown panic"] ∧
      kept.findings.map (·.name) = [] ∧
      kept.errors = ["Detector VB_HardcodedSecret failed: unknown panic"] := by
  intro s source bank all kept
  have hs : s ∈ inspectedSurveys := List.mem_cons_of_mem _ List.mem_cons_self
  have hkept := (survey_disabling hs {} {} source
    ["VB_ONERRORRESUMENEXT", "vb_dependencyinjectionregistration"]).2
    fun i _ => if i = 1 then none else some .silent
  have hfindings : all.findings.map (·.name) = ["VB_OnErrorResumeNext"] := by decide +kernel
  have herrors : all.errors = ["Detector VB_DependencyInjectionRegistration failed: unknown panic",
      "Detector VB_HardcodedSecret failed: unknown panic"] := by decide +kernel
  refine ⟨hs, hfindings, herrors, ?_, ?_⟩
  · refine (congrArg (fun r => r.findings.map (·.name)) hkept).trans ?_
    decide +kernel
  · refine (congrArg Report.errors hkept).trans ?_
    decide +kernel

end CodeSurvey
