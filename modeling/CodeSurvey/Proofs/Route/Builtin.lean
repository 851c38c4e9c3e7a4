import CodeSurvey.Proofs.Report.Stamp
import CodeSurvey.Proofs.Route.Fallback
import CodeSurvey.Survey.Builtin

/-!
# Routing to the built-in front ends

Whatever file is routed to the built-in front ends, the report is stamped with its path, its context
and the digest of its content. This holds for a template and for a document that is none, for files
that are surveyed under a temporary path, and for files that are kept as they are.
-/

namespace CodeSurvey

namespace Registry

/-- The registrations of the built-in front ends. -/
def builtinHistory (settings : Settings) : List Registration :=
  (sourceFrontends settings).map .primary ++ [.primary (Arm.frontend settings)] ++
    [.fallback (JsonFile.frontend settings)] ++ [.onDisk (Project.frontend settings)]

theorem builtin_eq (settings : Settings) : builtin settings = ofHistory (builtinHistory settings) :=
  rfl

/-- How the built-in front ends survey a file: a JSON file as a template or else as a document, all
other texts by one front end, projects from disk, and the rest by none. -/
theorem dispatch_builtin (settings : Settings) (path : String) :
    (∃ f ∈ sourceFrontends settings, (builtin settings).dispatch path = .content f none) ∨
      (builtin settings).dispatch path =
        .content (Arm.frontend settings) (some (JsonFile.frontend settings)) ∨
      (builtin settings).dispatch path = .onDisk (Project.frontend settings) ∨
      (builtin settings).dispatch path = .unstructured := by
  cases hext : extension? path with
  | none =>
    right; right; right
    rw [dispatch, hext]
  | some e =>
    rw [builtin_eq, dispatch_ofHistory e _ hext]
    simp only [builtinHistory, lastChoice_append, lastFallback_append, lastFallback_primary,
      Registration.firstChoice?, Registration.fallback?]
    -- Templates and documents have the same extensions.
    have hsame : namesExtension (JsonFile.frontend settings).extensions e =
      namesExtension (Arm.frontend settings).extensions e := rfl
    rw [hsame]
    cases namesExtension (Project.frontend settings).extensions e with
    | true => exact .inr (.inr (.inl rfl))
    | false =>
      cases namesExtension (Arm.frontend settings).extensions e with
      | true => exact .inr (.inl rfl)
      | false =>
        cases hchoice : lastChoice ((sourceFrontends settings).map .primary) e with
        | none => exact .inr (.inr (.inr rfl))
        | some c =>
          obtain ⟨f, hf, rfl⟩ := mem_of_lastChoice_primary e hchoice
          exact .inl ⟨f, hf, rfl⟩

end Registry

namespace Workspace

def builtin (settings : Settings) (files : FileSystem) : Workspace where
  settings := settings
  registry := Registry.builtin settings
  files := files

/-- Whether a text that is written under the temporary path for a file is read back unchanged. -/
def ReadsBack (w : Workspace) (path content : String) : Prop :=
  (w.files.addFile ⟨true, Path.pieces (w.scratchPath path)⟩ (Text.encode content) none).readText
    (w.scratchPath path) = .ok content

/-- The context of a source that is surveyed under a temporary path. -/
def bridgedContext (w : Workspace) (source : Source) : String :=
  Context.resolve w.settings.context
    (w.files.addFile ⟨true, Path.pieces (w.scratchPath source.path)⟩ (Text.encode source.content) none)
    (w.scratchPath source.path) source.context

/-- The context in which a source is surveyed: a front end resolves the one that it is given once
more, and a file that is kept as it is takes it over. -/
def surveyContext (w : Workspace) (source : Source) : String :=
  match w.dispatch source with
  | .content _ _ => Context.resolve w.settings.context w.files source.path source.context
  | .onDisk _ => w.bridgedContext source
  | .unstructured => source.context.getD ""

variable (settings : Settings) (files : FileSystem) (source : Source)

theorem stamped_unstructured (w : Workspace) :
    (w.unstructured source).Stamped ⟨source.path, source.context.getD ""⟩
      (Digest.ofText source.content) where
  filePath := rfl
  marks := by
    refine ⟨_, [], rfl, rfl, rfl, ?_, by simp⟩
    simp [Declaration.toElement, Declaration.imprint, Fields.ofList, Fields.get?_set]
  relations := by simp [unstructured]
  findings := by simp [unstructured]

/-- A JSON file is stamped whether it holds a template or not: a report without elements leaves it
to the front end for documents. -/
theorem stamped_template :
    (((builtin settings files).run (Arm.frontend settings) source).orFallback
      (some ((builtin settings files).run (JsonFile.frontend settings) source))).Stamped
        (source.place settings files) (Digest.ofText source.content) := by
  change ((Arm.survey settings files source).orFallback
    (some (JsonFile.survey settings files source))).Stamped _ _
  rcases Arm.grown_survey settings files source with harm | ⟨hnil, -⟩
  · rw [Report.orFallback_of_ne_nil harm.stamped.ne_nil]
    exact harm.stamped
  · have hjson := (JsonFile.grown_survey settings files source).stamped
    rw [Report.orFallback_of_eq_nil hnil]
    exact ⟨hjson.filePath, hjson.marks, hjson.relations, hjson.findings⟩

/-- A project is surveyed under a temporary path, of which nothing is left in the report. -/
theorem stamped_runOnDisk (hcancelled : source.cancelled = false)
    (hread : (builtin settings files).ReadsBack source.path source.content) :
    ((builtin settings files).runOnDisk (Project.frontend settings) source).Stamped
      ⟨source.path, (builtin settings files).bridgedContext source⟩
      (Digest.ofText source.content) := by
  have hstamped :=
    (Project.grown_survey settings source.context hread).stamped.relocate source.path
  unfold runOnDisk
  rw [hcancelled]
  exact hstamped

/-- What the built-in front ends make of a source is stamped with its path, its digest and the context
in which it is surveyed, unless it goes through the file system. -/
theorem stamped_or_onDisk :
    ((builtin settings files).survey source).Stamped
        ⟨source.path, (builtin settings files).surveyContext source⟩
        (Digest.ofText source.content) ∨
      (builtin settings files).dispatch source = .onDisk (Project.frontend settings) := by
  unfold survey surveyContext
  by_cases hsize : settings.router.maxFileSize < Text.byteLength source.content.toList
  · have hdispatch : (builtin settings files).dispatch source = .unstructured := if_pos hsize
    rw [hdispatch]
    exact .inl (stamped_unstructured source _)
  · have hdispatch : (builtin settings files).dispatch source =
        (Registry.builtin settings).dispatch source.path := if_neg hsize
    rw [hdispatch]
    rcases Registry.dispatch_builtin settings source.path with ⟨f, hf, h⟩ | h | h | h
    · obtain ⟨r, hr, hgrown⟩ := grown_of_mem_sourceFrontends files source hf
      have hrun : (builtin settings files).run f source = r :=
        congrArg (Report.guarded source.path f.language) hr
      left
      rw [h]
      change ((builtin settings files).run f source).Stamped _ _
      rw [hrun]
      exact hgrown.stamped
    · rw [h]
      exact .inl (stamped_template settings files source)
    · exact .inr h
    · rw [h]
      exact .inl (stamped_unstructured source _)

theorem stamped_surveyContext (hcancelled : source.cancelled = false)
    (hread : ∀ f, (builtin settings files).dispatch source = .onDisk f →
      (builtin settings files).ReadsBack source.path source.content) :
    ((builtin settings files).survey source).Stamped
      ⟨source.path, (builtin settings files).surveyContext source⟩
      (Digest.ofText source.content) := by
  rcases stamped_or_onDisk settings files source with h | h
  · exact h
  · rw [survey, surveyContext, h]
    exact stamped_runOnDisk settings files source hcancelled (hread _ h)

end Workspace

end CodeSurvey
