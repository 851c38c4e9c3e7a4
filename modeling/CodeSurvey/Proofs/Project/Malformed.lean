import CodeSurvey.Proofs.Project.Packages
import CodeSurvey.Proofs.Text.LineNumbers

/-!
# Malformed projects

A project file is malformed if its markup cannot be read to the end or if a text in it has references
that cannot be replaced. Wherever this shows, and whatever was read before, the file then adds nothing
to a report but one syntax error on a line of the file. What the detectors find in the file does not
depend on it.
-/

namespace CodeSurvey

/-- Whether the references of a text can be replaced; all else has none. -/
def Markup.Event.decodes : Markup.Event → Bool
  | .text raw => (Markup.unescape raw).isOk
  | _ => true

theorem Text.lineOfOffset_le (s : String) (offset : Nat) :
    lineOfOffset s offset ≤ 1 + s.toList.count '\n' := by
  have hcount := (prefix_takeBytes offset s.toList).sublist.count_le '\n'
  rw [lineOfOffset_eq, lineAfter]
  omega

namespace Project

/-- The markup has a fault, or a text in it has references that cannot be replaced. -/
def Malformed (content : String) : Prop :=
  (Markup.read content).fault.isSome ∨
    ∃ e ∈ (Markup.read content).events, e.event.decodes = false

instance (content : String) : Decidable (Malformed content) :=
  inferInstanceAs (Decidable (_ ∨ _))

/-- The complaint is about a line of the text. -/
structure Complaint.Within (c : Complaint) (content : String) : Prop where
  pos : 1 ≤ c.line
  le : c.line ≤ 1 + content.toList.count '\n'

theorem Complaint.within_of_offset {c : Complaint} {content : String} {offset : Nat}
    (h : c.line = Text.lineOfOffset content offset) : c.Within content where
  pos := by rw [h]; exact Nat.le_add_left 1 _
  le := by rw [h]; exact Text.lineOfOffset_le content offset

/-! ## Reading -/

/-- A step goes on just if it meets no text with references that cannot be replaced. -/
theorem Progress.next_cases (content : String) (p : Progress) (e : Markup.Located) :
    (e.event.decodes = true ∧ ∃ q, p.next content e = .ok q) ∨
      (e.event.decodes = false ∧ ∃ c, p.next content e = .error c ∧ c.Within content) := by
  obtain ⟨position, event⟩ := e
  cases event with
  | opened | empty | closed | skipped => exact .inl ⟨rfl, _, rfl⟩
  | text raw =>
    cases hraw : Markup.unescape raw with
    | ok value =>
      have hdecodes : (Markup.Event.text raw).decodes = true := by
        rw [Markup.Event.decodes, hraw]
        rfl
      exact .inl ⟨hdecodes, p.text value, by simp only [next, hraw]⟩
    | error fault =>
      have hdecodes : (Markup.Event.text raw).decodes = false := by
        rw [Markup.Event.decodes, hraw]
        rfl
      exact .inr ⟨hdecodes, ⟨lineAhead content position, fault.message⟩,
        by simp only [next, hraw], Complaint.within_of_offset rfl⟩

/-- A run stops at the first text with references that cannot be replaced. -/
theorem exists_of_foldlM_error (content : String) (p : Progress) {events : List Markup.Located}
    (h : ∃ e ∈ events, e.event.decodes = false) :
    ∃ c, events.foldlM (Progress.next content) p = .error c ∧ c.Within content := by
  induction events generalizing p with
  | nil =>
    obtain ⟨e, he, -⟩ := h
    cases he
  | cons first rest ih =>
    rw [List.foldlM_cons]
    rcases p.next_cases content first with ⟨hdecodes, q, hq⟩ | ⟨-, c, hc, hwithin⟩
    · rw [hq]
      obtain ⟨e, he, hfails⟩ := h
      rcases List.mem_cons.mp he with rfl | hrest
      · rw [hdecodes] at hfails
        cases hfails
      · exact ih q ⟨e, hrest, hfails⟩
    · rw [hc]
      exact ⟨c, rfl, hwithin⟩

theorem exists_of_foldlM_ok (content : String) (p : Progress) {events : List Markup.Located}
    (h : ∀ e ∈ events, e.event.decodes = true) :
    ∃ q, events.foldlM (Progress.next content) p = .ok q := by
  induction events generalizing p with
  | nil => exact ⟨p, rfl⟩
  | cons first rest ih =>
    obtain ⟨hfirst, hrest⟩ := List.forall_mem_cons.mp h
    rw [List.foldlM_cons]
    rcases p.next_cases content first with ⟨-, q, hq⟩ | ⟨hfails, -⟩
    · rw [hq]
      exact ih q hrest
    · rw [hfirst] at hfails
      cases hfails

theorem exists_complaint {content : String} (h : Malformed content) :
    ∃ c, readProject content = .error c ∧ c.Within content := by
  by_cases htexts : ∃ e ∈ (Markup.read content).events, e.event.decodes = false
  · obtain ⟨c, hc, hwithin⟩ := exists_of_foldlM_error content {} htexts
    refine ⟨c, ?_, hwithin⟩
    simp only [readProject, hc]
    rfl
  · obtain ⟨fault, hfault⟩ := Option.isSome_iff_exists.mp (h.resolve_right htexts)
    have hdecodes : ∀ e ∈ (Markup.read content).events, e.event.decodes = true := by
      simpa using htexts
    obtain ⟨q, hq⟩ := exists_of_foldlM_ok content {} hdecodes
    refine ⟨⟨Text.lineOfOffset content fault.position, fault.cause.message⟩, ?_,
      Complaint.within_of_offset rfl⟩
    simp only [readProject, hq, hfault]
    rfl

theorem exists_progress {content : String} (h : ¬ Malformed content) :
    ∃ p, readProject content = .ok p := by
  obtain ⟨hfault, htexts⟩ := not_or.mp h
  have hdecodes : ∀ e ∈ (Markup.read content).events, e.event.decodes = true := by
    simpa using htexts
  obtain ⟨q, hq⟩ := exists_of_foldlM_ok content {} hdecodes
  refine ⟨q, ?_⟩
  simp only [readProject, hq, Option.not_isSome_iff_eq_none.mp hfault]
  rfl

/-! ## Reports -/

def Complaint.text (c : Complaint) (path : String) : String :=
  "Syntax error in " ++ path ++ " at line " ++ Decimal.digitText c.line ++ ": " ++ c.message

theorem Complaint.startsWith_text (c : Complaint) (path : String) :
    Text.startsWith "Syntax error" (c.text path) = true := by
  have hhead : "Syntax error in " = "Syntax error" ++ " in " := by decide
  have htext : c.text path = "Syntax error" ++
      (" in " ++ path ++ " at line " ++ Decimal.digitText c.line ++ ": " ++ c.message) := by
    unfold Complaint.text
    rw [hhead]
    simp only [String.append_assoc]
  rw [Text.startsWith, List.isPrefixOf_iff_prefix, htext, String.toList_append]
  exact List.prefix_append _ _

/-- A project that is not malformed adds no error. -/
theorem errors_addProject {content : String} (h : ¬ Malformed content) (place : Place)
    (report : Report) : (addProject place content report).errors = report.errors := by
  obtain ⟨p, hp⟩ := exists_progress h
  rw [addProject, hp]
  exact Report.errors_recordAll _ _ _

/-- What the detectors that are not left out report on a project file. -/
def outcome (settings : Settings) (bank : Bank) (place : Place) (content : String) : Outcome :=
  (bank.without settings.detectors.disabled).run
    { filePath := place.path, context := place.context, source := content,
      margin := settings.detectors.margin }

/-- A report on a project file with a complaint: the file as it is, no relations, the syntax error
and what the detectors report. -/
structure Faulted (report : Report) (place : Place) (content : String) (c : Complaint)
    (outcome : Outcome) : Prop where
  elements : report.elements =
    [(fileDeclaration place.path content "MSBuild").toElement place.path place.context]
  relations : report.relations = []
  findings : report.findings = outcome.findings
  errors : report.errors = c.text place.path :: outcome.failures.map Failure.message
  alone : report.errors.filter (Text.startsWith "Syntax error") = [c.text place.path]

/-- The detectors see the file whatever becomes of its references. -/
theorem faulted_detect (settings : Settings) (bank : Bank) (place : Place) {content : String}
    {c : Complaint} (h : readProject content = .error c) :
    Faulted ((addProject place content (.opening place content "MSBuild")).detect settings.detectors
      bank { filePath := place.path, context := place.context, source := content }) place content c
      (outcome settings bank place content) := by
  have hadd : addProject place content (.opening place content "MSBuild") =
      (Report.opening place content "MSBuild").fail (.badSyntax place.path c.line c.message) := by
    rw [addProject, h]
  rw [hadd]
  have herrors := Report.errors_detect
    ((Report.opening place content "MSBuild").fail (.badSyntax place.path c.line c.message))
    settings.detectors bank
    { filePath := place.path, context := place.context, source := content }
  change _ = c.text place.path :: (outcome settings bank place content).failures.map _ at herrors
  refine ⟨Report.elements_detect _ _ _ _, Report.relations_detect _ _ _ _,
    Report.findings_detect _ _ _ _, herrors, ?_⟩
  have hothers : ((outcome settings bank place content).failures.map Failure.message).filter
      (Text.startsWith "Syntax error") = [] := by
    rw [List.filter_eq_nil_iff]
    intro message hmessage hstarts
    obtain ⟨f, hf, rfl⟩ := List.mem_map.mp hmessage
    exact Bank.not_prefix_message_of_mem_failures hf (List.isPrefixOf_iff_prefix.mp hstarts)
  rw [herrors, List.filter_cons_of_pos (c.startsWith_text place.path), hothers]

/-- A malformed project adds nothing to a report but one syntax error on a line of the file. Its survey
has the file, no relations, this one syntax error besides what the detectors fail with, and what the
detectors find in the text. A project that is not malformed adds no error. -/
theorem survey_of_malformed (settings : Settings) (fs : FileSystem) (path : String)
    (context : Option String) (bank : Bank) {content : String}
    (hread : fs.readText path = .ok content) (hproject : isSolution path = false) :
    (Malformed content → ∃ c : Complaint, c.Within content ∧
      (∀ place report, addProject place content report =
        { report with errors := report.errors ++ [c.text place.path] }) ∧
      Faulted (survey settings fs path context false bank)
        ⟨path, Context.resolve settings.context fs path context⟩ content c
        (outcome settings bank ⟨path, Context.resolve settings.context fs path context⟩ content)) ∧
    (¬ Malformed content → ∀ place report,
      (addProject place content report).errors = report.errors) := by
  refine ⟨fun hmalformed => ?_, errors_addProject⟩
  obtain ⟨c, hc, hwithin⟩ := exists_complaint hmalformed
  refine ⟨c, hwithin, ?_, ?_⟩
  · intro place report
    rw [addProject, hc]
    rfl
  · rw [survey_eq settings fs path context bank hread hproject]
    exact faulted_detect settings bank _ hc

/-- A project with a package before a text that cannot be decoded and a tag that closes another element
than the open one. -/
def brokenProject : String :=
  "<Project>\n<PackageReference Include=\"A\"/>\n<Company>A&B</Company>\n</Projekt>"

/-- Nothing of what stands before is kept, and the package without a version is still found. -/
theorem faulted_brokenProject :
    (alone brokenProject).readText "App.csproj" = .ok brokenProject ∧ Malformed brokenProject ∧
      ∃ c : Complaint, c.Within brokenProject ∧
        (survey {} (alone brokenProject) "App.csproj" none false).relations = [] ∧
        (survey {} (alone brokenProject) "App.csproj" none false).errors = [c.text "App.csproj"] ∧
        (survey {} (alone brokenProject) "App.csproj" none false).findings.map (·.name) =
          ["Project_UnversionedPackage"] := by
  have hread : (alone brokenProject).readText "App.csproj" = .ok brokenProject :=
    readText_alone_ascii (by decide +kernel)
  have hmalformed : Malformed brokenProject := by decide +kernel
  obtain ⟨c, hwithin, -, hfaulted⟩ := (survey_of_malformed {} (alone brokenProject) "App.csproj" none
    Detect.Project.bank hread (by decide +kernel)).1 hmalformed
  refine ⟨hread, hmalformed, c, hwithin, hfaulted.relations, ?_, ?_⟩
  · have hfailures : (outcome {} Detect.Project.bank
        ⟨"App.csproj", Context.resolve {} (alone brokenProject) "App.csproj" none⟩
        brokenProject).failures = [] := by decide +kernel
    have herrors := hfaulted.errors
    rw [hfailures] at herrors
    exact herrors
  · rw [hfaulted.findings]
    decide +kernel

end Project

end CodeSurvey
