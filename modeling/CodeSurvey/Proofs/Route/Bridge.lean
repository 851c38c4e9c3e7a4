import CodeSurvey.Proofs.Files.Extension
import CodeSurvey.Proofs.Report.Relocation

/-!
# Surveys under a temporary path

Solutions and project files are written to a temporary path, surveyed there, and the report is moved
to the path asked for. Nothing of the temporary path is left: the report is the one that the text
gives under the path asked for. The temporary path must not be one that the file refers to, since
references are moved like the path itself, and no complaint about the text may mention it.
-/

namespace CodeSurvey

open Text (Occurs)

/-! ## Texts of failures -/

namespace Failure

variable {path word : String}

theorem message_badSyntax (path : String) (line : Nat) (message : String) :
    (badSyntax path line message).message = "Syntax error in " ++
      (path ++ (" at line " ++ (Decimal.digitText line ++ (": " ++ message)))) := by
  change "Syntax error in " ++ path ++ " at line " ++ Decimal.digitText line ++ ": " ++ message = _
  simp only [String.append_assoc]

/-- What follows the path in the text of a syntax error mentions a path only if the complaint
does. -/
theorem occurs_after_path_iff (hword : Text.startsWith "/" word = true) (line : Nat)
    (message : String) :
    Occurs word (" at line " ++ (Decimal.digitText line ++ (": " ++ message))) ↔
      Occurs word message := by
  rw [Text.occurs_append_iff hword (by decide),
    Text.occurs_append_iff hword (Text.not_mem_digitText (by decide) line),
    Text.occurs_append_iff hword (by decide)]

theorem replace_badSyntax {old : String} (hold : Text.startsWith "/" old = true) {message : String}
    (hmessage : ¬ Occurs old message) (new : String) (line : Nat) :
    Text.replace old new (badSyntax old line message).message =
      (badSyntax new line message).message := by
  obtain ⟨tail, htail⟩ := Text.exists_tail_of_startsWith hold
  rw [message_badSyntax, message_badSyntax]
  refine Text.replace_between htail (by decide) ?_ new
  rwa [occurs_after_path_iff hold]

theorem replace_cancelled {old : String} (hold : Text.startsWith "/" old = true) (new : String) :
    Text.replace old new (cancelled old).message = (cancelled new).message := by
  obtain ⟨tail, htail⟩ := Text.exists_tail_of_startsWith hold
  have hnone : ¬ Occurs old "" := by simp [Occurs, htail]
  have hreplace : Text.replace old new ("Parsing cancelled for " ++ (old ++ "")) =
      "Parsing cancelled for " ++ (new ++ "") :=
    Text.replace_between htail (by decide) hnone new
  rw [String.append_empty, String.append_empty] at hreplace
  exact hreplace

/-- A path does not reach over from the path in a syntax error into what follows: it would have to
contain the words between the path and the line, as its extension has no blanks. -/
theorem not_occurs_badSyntax (hword : Text.startsWith "/" word = true) {extension : String}
    (hextension : extensionAsWritten? word = some extension) (hblank : ' ' ∉ extension.toList)
    (hat : ¬ Occurs " at line " word) (hpath : ¬ Occurs word path) {message : String}
    (hmessage : ¬ Occurs word message) (line : Nat) :
    ¬ Occurs word (badSyntax path line message).message := by
  rw [message_badSyntax, Text.occurs_append_iff hword (by decide), Occurs, String.toList_append,
    List.infix_append_iff]
  rintro (h | h | ⟨x, y, hxy, hx, hy⟩)
  · exact hpath h
  · exact hmessage ((occurs_after_path_iff hword line message).mp h)
  · obtain ⟨start, rest, hdot, hrest⟩ := exists_of_extensionAsWritten? hextension
    have hspaceless : ' ' ∉ '.' :: (extension.toList ++ rest) := by
      intro hmem
      rcases List.mem_cons.mp hmem with hmem | hmem
      · exact absurd hmem (by decide)
      · rcases List.mem_append.mp hmem with hmem | hmem
        · exact hblank hmem
        · rcases hrest _ hmem with h | h <;> exact absurd h (by decide)
    rw [String.toList_append] at hy
    rw [hxy] at hdot
    rcases List.append_eq_append_iff.mp hdot with ⟨more, -, hmore⟩ | ⟨more, hmore, hend⟩
    · -- The dot before the extension stands after the path, so the words between are passed.
      have hdoty : '.' ∈ y := by simp [hmore]
      rcases List.prefix_or_prefix_of_prefix hy (List.prefix_append _ _) with hshort | hlong
      · exact absurd (hshort.subset hdoty) (by decide)
      · refine hat ?_
        rw [Occurs, hxy]
        exact hlong.isInfix.trans (List.suffix_append x y).isInfix
    · -- All that stands after the path is part of the extension, which begins with no blank.
      cases y with
      | nil =>
        refine hpath ?_
        rw [Occurs, hxy, List.append_nil]
        exact hx.isInfix
      | cons c y =>
        have hc : c = ' ' := (List.cons_prefix_cons.mp hy).1
        exact hspaceless (by simp [hend, hc])

end Failure

/-! ## Solutions and project files -/

theorem Context.resolve_explicit (settings : ContextSettings) (fs : FileSystem) (path : String)
    {context : String} (h : Text.trim context ≠ "") :
    resolve settings fs path (some context) = Text.trim context := by
  have hsome : explicit? (some context) = some (Text.trim context) := by
    simp [explicit?, h]
  rw [resolve, hsome]

namespace Project

/-- What a file refers to: the projects of a solution, or the references of a project. -/
def targets (solution : Bool) (content : String) : List String :=
  if solution then (entries content).map fun m => slashed (m.group 3)
  else
    match readProject content with
    | .ok p => p.references.map Reference.target
    | .error _ => []

/-- The complaint about a file; what a solution contains is not read as markup. -/
def complaint? (solution : Bool) (content : String) : Option Complaint :=
  if solution then none
  else
    match readProject content with
    | .ok _ => none
    | .error c => some c

def surveyText (settings : Settings) (place : Place) (content : String) (solution : Bool) : Report :=
  if solution then addSolution place content (.opening place content "Solution")
  else
    (addProject place content (.opening place content "MSBuild")).detect settings.detectors
      Detect.Project.bank { filePath := place.path, context := place.context, source := content }

theorem survey_eq_surveyText (settings : Settings) {fs : FileSystem} {path content : String}
    (hread : fs.readText path = .ok content) {context : String} (hcontext : Text.trim context ≠ "") :
    survey settings fs path (some context) false =
      surveyText settings ⟨path, Text.trim context⟩ content (isSolution path) := by
  simp only [survey, hread, Context.resolve_explicit _ _ _ hcontext, surveyText,
    Bool.false_eq_true, if_false]

theorem pathBlind_rules : ∀ rule ∈ [Detect.Project.unversionedPackage,
    Detect.Project.legacyFramework], rule.PathBlind := by
  intro rule hrule
  simp only [List.mem_cons, List.not_mem_nil, or_false] at hrule
  rcases hrule with rfl | rfl <;> exact fun _ _ => ⟨rfl, rfl⟩

/-- The notes of a project on its file. -/
theorem nameBlind_properties (p : Progress) : Declaration.NameBlind fun d =>
    (p.properties.foldl (fun d e => d.note e.1 (propertyValue e.1 e.2)) d).addDependencies
      (p.references.map Reference.target) :=
  (Declaration.NameBlind.addDependencies _).comp
    (Declaration.NameBlind.foldl (fun _ => Declaration.NameBlind.note _ _) _)

/-- The notes of a solution on its file. -/
theorem nameBlind_entries (content : String) : Declaration.NameBlind fun d =>
    (d.noteText? "format_version" ((format.find? content).map (·.group 1))).addDependencies
      ((entries content).map fun m => slashed (m.group 3)) :=
  (Declaration.NameBlind.addDependencies _).comp (Declaration.NameBlind.noteText? _ _)

section Move

variable {old : String} (new context : String) {content : String} (r : Report)

theorem move_addSolution (htargets : old ∉ targets true content) :
    (addSolution ⟨old, context⟩ content r).move old new =
      addSolution ⟨new, context⟩ content (r.move old new) := by
  have hfacts : ∀ m ∈ entries content, ∃ target kind line properties, target ≠ old ∧
      ∀ path, entryFact path content m = .relate path target kind line properties := by
    intro m hm
    refine ⟨slashed (m.group 3), _, _, _, ?_, fun path => rfl⟩
    rintro rfl
    exact htargets (List.mem_map_of_mem hm)
  refine (Report.move_recordAll old new context _ (entryFact · content) hfacts).trans ?_
  rw [Report.move_updateFile _ _ _ (nameBlind_entries content)]
  rfl

theorem move_addProject (hold : Text.startsWith "/" old = true)
    (htargets : old ∉ targets false content)
    (hcomplaint : ∀ c ∈ complaint? false content, ¬ Occurs old c.message) :
    (addProject ⟨old, context⟩ content r).move old new =
      addProject ⟨new, context⟩ content (r.move old new) := by
  unfold addProject
  unfold targets at htargets
  unfold complaint? at hcomplaint
  cases hread : readProject content with
  | error c =>
    rw [hread] at hcomplaint
    exact Report.move_fail _ _ _ (Failure.replace_badSyntax hold (hcomplaint c rfl) new c.line)
  | ok p =>
    rw [hread] at htargets
    have hfacts : ∀ reference ∈ p.references, ∃ target kind line properties, target ≠ old ∧
        ∀ path, referenceFact path reference = .relate path target kind line properties := by
      intro reference hreference
      refine ⟨reference.target, _, _, _, ?_, fun path => rfl⟩
      rintro rfl
      exact htargets (List.mem_map_of_mem hreference)
    refine (Report.move_recordAll old new context _ referenceFact hfacts).trans ?_
    rw [Report.move_updateFile _ _ _ (nameBlind_properties p)]

/-- The survey of a text under one path, moved to another, is the survey under the other path. -/
theorem move_surveyText (settings : Settings) (solution : Bool)
    (hold : Text.startsWith "/" old = true) (htargets : old ∉ targets solution content)
    (hcomplaint : ∀ c ∈ complaint? solution content, ¬ Occurs old c.message) :
    (surveyText settings ⟨old, context⟩ content solution).move old new =
      surveyText settings ⟨new, context⟩ content solution := by
  cases solution with
  | true =>
    change (addSolution _ _ _).move old new = addSolution _ _ _
    rw [move_addSolution new context _ htargets, Report.move_opening]
  | false =>
    refine (Report.move_detect old new _ settings.detectors "project" pathBlind_rules rfl).trans ?_
    rw [move_addProject new context _ hold htargets hcomplaint, Report.move_opening]
    rfl

end Move

/-! ## What is left of a path -/

section Avoids

variable {word content : String} {place : Place} {r : Report}

theorem avoids_addSolution (h : r.Avoids word) (hpath : ¬ Occurs word place.path)
    (htargets : ∀ t ∈ targets true content, ¬ Occurs word t) :
    (addSolution place content r).Avoids word := by
  refine (h.updateFile (nameBlind_entries content)).recordAll ?_
  intro fact hfact
  obtain ⟨m, hm, rfl⟩ := List.mem_map.mp hfact
  exact ⟨_, _, _, _, _, rfl, hpath, htargets _ (List.mem_map_of_mem hm)⟩

theorem avoids_addProject (h : r.Avoids word) (hpath : ¬ Occurs word place.path)
    (htargets : ∀ t ∈ targets false content, ¬ Occurs word t)
    (hfailure : ∀ c ∈ complaint? false content,
      ¬ Occurs word (Failure.badSyntax place.path c.line c.message).message) :
    (addProject place content r).Avoids word := by
  unfold addProject
  unfold targets at htargets
  unfold complaint? at hfailure
  cases hread : readProject content with
  | error c =>
    rw [hread] at hfailure
    exact h.fail (hfailure c rfl)
  | ok p =>
    rw [hread] at htargets
    refine (h.updateFile (nameBlind_properties p)).recordAll ?_
    intro fact hfact
    obtain ⟨reference, hreference, rfl⟩ := List.mem_map.mp hfact
    exact ⟨_, _, _, _, _, rfl, hpath, htargets _ (List.mem_map_of_mem hreference)⟩

theorem avoids_surveyText (settings : Settings) (solution : Bool)
    (hword : Text.startsWith "/" word = true) (hpath : ¬ Occurs word place.path)
    (htargets : ∀ t ∈ targets solution content, ¬ Occurs word t)
    (hfailure : ∀ c ∈ complaint? solution content,
      ¬ Occurs word (Failure.badSyntax place.path c.line c.message).message) :
    (surveyText settings place content solution).Avoids word := by
  cases solution with
  | true => exact avoids_addSolution (Report.avoids_opening hpath _ _) hpath htargets
  | false =>
    have hproject := avoids_addProject (Report.avoids_opening hpath content "MSBuild") hpath
      htargets hfailure
    refine hproject.detect settings.detectors "project" ?_ hpath
    intro rule hrule
    apply Text.not_occurs_of_not_mem hword
    revert rule
    decide

end Avoids

/-! ## Temporary paths -/

/-- A temporary path at which a text can be read. It is absolute and has the extension of the file.
The text does not refer to it, and no complaint about the text mentions it. -/
structure Scratch (fs : FileSystem) (extension content path : String) : Prop where
  absolute : Text.startsWith "/" path = true
  ending : extensionAsWritten? path = some extension
  readable : fs.readText path = .ok content
  target : path ∉ targets (Text.sameIgnoringCase "sln" extension) content
  complaint : ∀ c ∈ complaint? (Text.sameIgnoringCase "sln" extension) content,
    ¬ Occurs path c.message

/-- A text without its temporary path: what is reported of it depends only on where it belongs. -/
def surveyAt (settings : Settings) (place : Place) (extension content : String) (cancelled : Bool) :
    Report :=
  if cancelled then .failed place.path (Failure.cancelled place.path).message
  else surveyText settings place content (Text.sameIgnoringCase "sln" extension)

namespace Scratch

variable {fs : FileSystem} {extension content scratch context : String}

theorem survey_eq (h : Scratch fs extension content scratch) (settings : Settings)
    (hcontext : Text.trim context ≠ "") (cancelled : Bool) :
    survey settings fs scratch (some context) cancelled =
      surveyAt settings ⟨scratch, Text.trim context⟩ extension content cancelled := by
  cases cancelled with
  | true => rfl
  | false =>
    rw [survey_eq_surveyText settings h.readable hcontext, isSolution, h.ending]
    rfl

/-- A report that is moved away from a temporary path is one that was never there. -/
theorem relocate_survey (h : Scratch fs extension content scratch) (settings : Settings)
    (hcontext : Text.trim context ≠ "") (cancelled : Bool) (path : String) :
    (survey settings fs scratch (some context) cancelled).relocate scratch path =
      surveyAt settings ⟨path, Text.trim context⟩ extension content cancelled := by
  rw [h.survey_eq settings hcontext]
  by_cases hpath : scratch = path
  · subst hpath
    exact if_pos rfl
  · rw [Report.relocate_of_ne hpath]
    cases cancelled with
    | true => exact Report.move_failed _ _ (Failure.replace_cancelled h.absolute path)
    | false => exact move_surveyText path _ settings _ h.absolute h.target h.complaint

theorem avoids_surveyAt (h : Scratch fs extension content scratch)
    (hextension : Text.lowerAscii extension ∈ ["sln", "csproj", "vbproj", "fsproj"])
    (settings : Settings) (place : Place) (cancelled : Bool) (hpath : ¬ Occurs scratch place.path)
    (hat : ¬ Occurs " at line " scratch)
    (htargets : ∀ t ∈ targets (Text.sameIgnoringCase "sln" extension) content, ¬ Occurs scratch t) :
    (surveyAt settings place extension content cancelled).Avoids scratch := by
  have hblank : ' ' ∉ extension.toList := by
    intro hmem
    have hlower : ' ' ∈ (Text.lowerAscii extension).toList := by
      rw [Text.lowerAscii, String.toList_ofList]
      exact List.mem_map_of_mem (f := Char.toLower) hmem
    revert hlower
    generalize Text.lowerAscii extension = lowered at hextension
    revert lowered
    decide
  cases cancelled with
  | true =>
    refine Report.avoids_failed hpath ?_
    change ¬ Occurs scratch ("Parsing cancelled for " ++ place.path)
    rwa [Text.occurs_append_iff h.absolute (by decide)]
  | false =>
    refine avoids_surveyText settings _ h.absolute hpath htargets fun c hc => ?_
    exact Failure.not_occurs_badSyntax h.absolute h.ending hblank hat hpath
      (h.complaint c hc) c.line

end Scratch

/-- The files when a text stands at a temporary path only. -/
def scratchFiles (content scratch : String) : FileSystem :=
  FileSystem.addFile {} ⟨true, Path.pieces scratch⟩ (Text.encode content) none

/-- The report on a text that was surveyed at a temporary path. -/
def bridged (content scratch path : String) : Report :=
  (survey {} (scratchFiles content scratch) scratch (some "app") false).relocate scratch path

end Project

end CodeSurvey
