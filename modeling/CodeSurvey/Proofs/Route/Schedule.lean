import CodeSurvey.Proofs.Route.Builtin
import CodeSurvey.Survey.Directory

/-!
# Scanning in any order

The files of a directory are surveyed several at a time, and their reports come in as they are
done. Which of the files come first, and how many are on the way at once, makes no difference: a
step of the scan only moves a report from those due to those done, so that in the end all are done,
and the paths of the files, of which no two are equal, give the reports their order.
-/

namespace CodeSurvey

/-! ## Scans -/

/-- A scan on its way: files that wait, files that are being surveyed, and the reports that came
in, the last one at the end. -/
structure Scan where
  waiting : List FoundFile
  running : List FoundFile := []
  finished : List Report := []

namespace Scan

/-- A step of a scan. The next file is taken up while fewer than the set number are on the way, and
at least one may be; any of those on the way may be the next that is done. -/
inductive Step (w : Workspace) : Scan → Scan → Prop
  | start {f : FoundFile} {waiting running : List FoundFile} {finished : List Report}
      (h : running.length < max 1 w.settings.scan.concurrency) :
      Step w ⟨f :: waiting, running, finished⟩ ⟨waiting, running ++ [f], finished⟩
  | finish {f : FoundFile} {waiting before after : List FoundFile} {finished : List Report} :
      Step w ⟨waiting, before ++ f :: after, finished⟩
        ⟨waiting, before ++ after, finished ++ [w.surveyFound false f]⟩

/-- Steps one after the other. -/
def Run (w : Workspace) : Scan → Scan → Prop := Relation.ReflTransGen (Step w)

/-- A scan with nothing left to do. -/
def Ended (s : Scan) : Prop := s.waiting = [] ∧ s.running = []

/-- The reports that came in and those that are due. -/
def reports (w : Workspace) (s : Scan) : List Report :=
  s.finished ++ (s.running ++ s.waiting).map (w.surveyFound false)

/-- What is left to do: each file is taken up and done. -/
def left (s : Scan) : Nat := 2 * s.waiting.length + s.running.length

variable {w : Workspace} {s t : Scan}

theorem Step.reports_perm (h : Step w s t) : (t.reports w).Perm (s.reports w) := by
  cases h with
  | start _ => simp [reports]
  | finish =>
    simp only [reports, List.append_assoc, List.cons_append, List.map_append, List.map_cons,
      List.nil_append]
    exact List.perm_middle.symm.append_left _

theorem Run.reports_perm (h : Run w s t) : (t.reports w).Perm (s.reports w) := by
  induction h with
  | refl => exact List.Perm.refl _
  | tail _ hstep ih => exact hstep.reports_perm.trans ih

theorem Ended.reports_eq (h : s.Ended) : s.reports w = s.finished := by
  simp [reports, h.1, h.2]

theorem Step.left_lt (h : Step w s t) : t.left < s.left := by
  cases h with
  | start _ =>
    simp only [left, List.length_cons, List.length_append, List.length_nil]
    omega
  | finish =>
    simp only [left, List.length_cons, List.length_append]
    omega

/-- A scan that has not ended can go on, as one file at least may be on the way. -/
theorem exists_step (w : Workspace) (h : ¬ s.Ended) : ∃ t, Step w s t := by
  obtain ⟨waiting, running, finished⟩ := s
  cases running with
  | cons f rest => exact ⟨_, @Step.finish w f waiting [] rest finished⟩
  | nil =>
    cases waiting with
    | nil => exact absurd ⟨rfl, rfl⟩ h
    | cons f rest => exact ⟨_, Step.start (by simp)⟩

/-- Every scan comes to its end. -/
theorem exists_ended (w : Workspace) (s : Scan) : ∃ t, Run w s t ∧ t.Ended := by
  induction hn : s.left using Nat.strong_induction_on generalizing s with
  | _ n ih =>
    by_cases hended : s.Ended
    · exact ⟨s, .refl, hended⟩
    · obtain ⟨next, hstep⟩ := exists_step w hended
      obtain ⟨t, hrun, ht⟩ := ih next.left (hn ▸ hstep.left_lt) next rfl
      exact ⟨t, .head hstep hrun, ht⟩

end Scan

/-! ## Paths of reports -/

theorem Project.filePath_survey (settings : Settings) (fs : FileSystem) (path : String)
    (context : Option String) (cancelled : Bool) :
    (survey settings fs path context cancelled).filePath = path := by
  cases cancelled with
  | true => rfl
  | false =>
    cases hread : fs.readText path with
    | error fault => simp [survey, hread, Report.failed]
    | ok content => exact (grown_survey settings context hread).stamped.filePath

theorem Report.filePath_relocate {r : Report} {old : String} (h : r.filePath = old)
    (new : String) : (r.relocate old new).filePath = new := by
  unfold relocate
  split_ifs with hsame
  · rw [h, hsame]
  · rfl

/-- Reports on different files stand in strict order. -/
theorem Report.pairwise_inOrder {reports : List Report} (h : (reports.map (·.filePath)).Nodup) :
    (inOrder reports).Pairwise (·.filePath < ·.filePath) := by
  unfold inOrder
  convert Text.pairwise_mergeSort_of_nodup Report.filePath h

/-- Reports on different files stand in one order, whatever order they came in. -/
theorem Report.inOrder_eq_of_perm {reports others : List Report} (hperm : reports.Perm others)
    (h : (others.map (·.filePath)).Nodup) : inOrder reports = inOrder others := by
  have hreports : (reports.map (·.filePath)).Nodup := (hperm.map _).nodup_iff.mpr h
  refine List.Perm.eq_of_pairwise ?_ (pairwise_inOrder hreports) (pairwise_inOrder h) ?_
  · intro a b _ _ hab hba
    exact absurd hab (lt_asymm hba)
  · exact (List.mergeSort_perm _ _).trans (hperm.trans (List.mergeSort_perm _ _).symm)

namespace Workspace

variable (settings : Settings) (files : FileSystem)

/-- Every report of the built-in front ends is about the file that was asked for. -/
theorem filePath_survey (source : Source) :
    ((builtin settings files).survey source).filePath = source.path := by
  rcases stamped_or_onDisk settings files source with h | h
  · exact h.filePath
  · rw [survey, h]
    exact Report.filePath_relocate (Project.filePath_survey _ _ _ _ _) source.path

theorem filePath_route (request : Request) :
    ((builtin settings files).route request).filePath = request.path := by
  unfold route
  split
  · rfl
  · split
    · rfl
    · exact filePath_survey settings files _

theorem filePath_surveyFound (cancelled : Bool) (f : FoundFile) :
    ((builtin settings files).surveyFound cancelled f).filePath = f.relative := by
  unfold surveyFound
  split
  · rfl
  · split
    · rfl
    · exact filePath_route settings files _

theorem surveyFound_of_ok (w : Workspace) {f : FoundFile} {answer : String × Option Tree}
    (h : w.files.readLossy f.path = .ok answer) :
    w.surveyFound false f = w.route
      { path := f.relative, content := some answer.1,
        context := some (Context.ofPath w.settings.context w.files f.path), tree := answer.2 } := by
  simp [surveyFound, h]

theorem surveyFound_of_error (w : Workspace) {f : FoundFile} {fault : ReadFault}
    (h : w.files.readLossy f.path = .error fault) :
    w.surveyFound false f =
      .failed f.relative ("IO error at " ++ f.path ++ ": " ++ fault.message) := by
  simp only [surveyFound, h, Bool.false_eq_true, if_false]
  rfl

/-- The paths of the reports are those of the files. -/
theorem map_filePath_surveyFound (found : List FoundFile) :
    (found.map ((builtin settings files).surveyFound false)).map (·.filePath) =
      found.map (·.relative) := by
  rw [List.map_map]
  exact List.map_congr_left fun f _ => filePath_surveyFound settings files false f

/-- Files with different paths may be found in any order. -/
theorem routeFound_eq_of_perm {walk found : List FoundFile} (hperm : walk.Perm found)
    (hdistinct : (found.map (·.relative)).Nodup) :
    (builtin settings files).routeFound false walk =
      (builtin settings files).routeFound false found := by
  apply Report.inOrder_eq_of_perm (hperm.map _)
  rwa [map_filePath_surveyFound]

/-- A scan that has ended gives the reports on the files it began with. -/
theorem inOrder_finished {walk : List FoundFile} (hdistinct : (walk.map (·.relative)).Nodup)
    {s : Scan} (hrun : Scan.Run (builtin settings files) ⟨walk, [], []⟩ s) (hended : s.Ended) :
    Report.inOrder s.finished = (builtin settings files).routeFound false walk := by
  have hperm : s.finished.Perm (walk.map ((builtin settings files).surveyFound false)) := by
    rw [← hended.reports_eq (w := builtin settings files)]
    exact hrun.reports_perm
  apply Report.inOrder_eq_of_perm hperm
  rwa [map_filePath_surveyFound]

end Workspace

end CodeSurvey
