import CodeSurvey.Proofs.Registry.History
import CodeSurvey.Proofs.Report.Steps
import CodeSurvey.Survey.Route

/-!
# First choice and fallback

Each of the two front ends of an extension either gives a report or crashes. A crash counts as a
report with the path and one error. The report of the first choice stands if it has an element;
otherwise that of the fallback stands, with the errors of the first choice after its own.
-/

namespace CodeSurvey

/-- The error that a crash of a front end leaves. -/
def crashError (language : String) : Crash → String
  | .saying message => "Parser error: " ++ (language ++ " parser failed: " ++ message)
  | .silent => "Parser error: " ++ (language ++ " parser failed: " ++ "unknown panic")

/-- What an attempt with a front end counts as. -/
def Frontend.outcome (f : Frontend) (path : String) : Except Crash Report → Report
  | .ok report => report
  | .error crash => { filePath := path, errors := [crashError f.language crash] }

namespace Report

theorem guarded_eq_outcome (f : Frontend) (path : String) (answer : Except Crash Report) :
    guarded path f.language answer = f.outcome path answer := by
  cases answer with
  | ok report => rfl
  | error crash =>
    cases crash with
    | saying | silent => rfl

theorem orFallback_of_ne_nil {first : Report} (h : first.elements ≠ []) (second : Option Report) :
    first.orFallback second = first := by
  cases second with
  | none => rfl
  | some second => simp [orFallback, h]

theorem orFallback_of_eq_nil {first : Report} (h : first.elements = []) (second : Report) :
    first.orFallback (some second) = { second with errors := second.errors ++ first.errors } := by
  simp [orFallback, h, foldl_addError]

/-- The fallback never loses an error of the first choice. -/
theorem mem_errors_orFallback {first : Report} {message : String} (h : message ∈ first.errors)
    (second : Option Report) : message ∈ (first.orFallback second).errors := by
  by_cases he : first.elements = []
  · cases second with
    | none => exact h
    | some second =>
      rw [orFallback_of_eq_nil he]
      exact List.mem_append_right _ h
  · rw [orFallback_of_ne_nil he]
    exact h

end Report

namespace Workspace

variable (w : Workspace) (source : Source)

/-- A source within the size limit whose extension has a first choice and a fallback goes to both. -/
theorem survey_content {e : String} {primary fallback : Frontend}
    (hsize : Text.byteLength source.content.toList ≤ w.settings.router.maxFileSize)
    (hext : extension? source.path = some e)
    (hprimary : w.registry.primary.find? e = some primary)
    (hfallback : w.registry.fallback.find? e = some fallback) :
    w.survey source =
      (primary.outcome source.path (primary.survey w.files source)).orFallback
        (some (fallback.outcome source.path (fallback.survey w.files source))) := by
  have hdispatch : w.dispatch source = .content primary (some fallback) := by
    rw [dispatch, if_neg (Nat.not_lt.mpr hsize), Registry.dispatch, hext]
    simp only [Registry.dispatchExtension, hprimary, hfallback]
  rw [survey, hdispatch]
  simp only [run, Option.map_some, Report.guarded_eq_outcome]

/-- The source that a request with its content makes. -/
def sourceOf (path content : String) (context : Option String) (tree : Option Tree) : Source where
  path := path
  content := content
  context := some (Context.resolve w.settings.context w.files path context)
  tree := tree

/-- A request with its content that is not called off is surveyed, and the findings are attached to
what comes out. -/
theorem route_content (path content : String) (context : Option String) (tree : Option Tree) :
    w.route { path, content := some content, context, tree } =
      (w.survey (w.sourceOf path content context tree)).attachFindings := rfl

/-- Whatever the two front ends of an extension do, report or crash: what is routed to them is the
report of the first choice as it is if that has an element, and otherwise the report of the fallback
with the errors of the first choice after its own. No error of the first choice is lost. -/
theorem route_first_choice_or_fallback (path content : String) (context : Option String)
    (tree : Option Tree) {e : String} {primary fallback : Frontend}
    (hsize : Text.byteLength content.toList ≤ w.settings.router.maxFileSize)
    (hext : extension? path = some e)
    (hprimary : w.registry.primary.find? e = some primary)
    (hfallback : w.registry.fallback.find? e = some fallback) :
    let source := w.sourceOf path content context tree
    let first := primary.outcome path (primary.survey w.files source)
    let second := fallback.outcome path (fallback.survey w.files source)
    w.route { path, content := some content, context, tree } = (w.survey source).attachFindings ∧
      (first.elements ≠ [] → w.survey source = first) ∧
      (first.elements = [] →
        w.survey source = { second with errors := second.errors ++ first.errors }) ∧
      ∀ message ∈ first.errors, message ∈ (w.survey source).errors := by
  intro source first second
  have hsurvey : w.survey source = first.orFallback (some second) :=
    w.survey_content source hsize hext hprimary hfallback
  refine ⟨w.route_content path content context tree, ?_, ?_, ?_⟩
  · intro hne
    rw [hsurvey, Report.orFallback_of_ne_nil hne]
  · intro hnil
    rw [hsurvey, Report.orFallback_of_eq_nil hnil]
  · intro message hmessage
    rw [hsurvey]
    exact Report.mem_errors_orFallback hmessage _

/-- A front end that crashes with a message. -/
def crashingFrontend : Frontend := .answering "Main" ["boom"] (.error (.saying "stub panic"))

/-- A workspace whose first choice for `boom` crashes and whose fallback fails. -/
def crashing : Workspace where
  registry := .ofHistory [
    .primary crashingFrontend,
    .fallback (.answering "Fall" ["BOOM"] (.ok (.failed "n/c.boom" "Fall failed")))]

/-- The error of the fallback comes first, then that of the first choice. -/
theorem errors_survey_crashing :
    (crashing.survey (crashing.sourceOf "n/c.boom" "any" none none)).errors =
      ["Fall failed", "Parser error: Main parser failed: stub panic"] := by
  have hext : extension? "n/c.boom" = some "boom" := by decide +kernel
  have hprimary : crashing.registry.primary.find? "boom" = some crashingFrontend := rfl
  obtain ⟨_, _, hnil, _⟩ := crashing.route_first_choice_or_fallback "n/c.boom" "any" none none
    (by decide +kernel) hext hprimary rfl
  rw [hnil rfl]
  decide +kernel

/-- The error that a crash leaves is not only the language and the message: it says first that it
comes from a front end. -/
theorem errors_route_crashing_ne :
    (crashing.route { path := "n/c.boom", content := some "any" }).errors ≠
      ["Fall failed", "Main parser failed: stub panic"] := by
  decide +kernel

end Workspace

end CodeSurvey
