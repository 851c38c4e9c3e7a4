import CodeSurvey.Proofs.Context.Climb

/-!
# Which directory a marker is attributed to

A climb counts the names of a path, but it goes up by parts, and `..` is a part that is no name. Where
the climb ends at a marker, the marker lies as many parts below the directory that is named as `..`
occurs behind it. So the directory that is named is the one with the marker just if no `..` stands
behind it.
-/

namespace CodeSurvey

namespace Path

/-- Only the first part of a path can be a dot. -/
theorem dot_notMem_tail (text : String) : "." ∉ (ofText text).parts.tail := by
  have hrest (rest : List String) : "." ∉ rest.filter (· != ".") := by simp
  unfold ofText
  cases pieces text with
  | nil => simp
  | cons first rest =>
    cases hdrop : decide (first = ".") && Text.startsWith "/" text with
    | true => simpa [hdrop] using fun hmem => hrest rest (List.mem_of_mem_tail hmem)
    | false => simp [hdrop]

/-- What stands behind a part consists of names and of steps up. -/
theorem length_behind {text part : String} {before behind : List String}
    (h : (ofText text).parts = before ++ part :: behind) :
    behind.length = (behind.filter isName).length + behind.count ".." := by
  have hdot : "." ∉ behind := by
    intro hmem
    apply dot_notMem_tail text
    rw [h]
    cases before with
    | nil => exact hmem
    | cons first before => simp [hmem]
  have hup : behind.countP (fun part => ¬ isName part = true) = behind.count ".." := by
    refine List.countP_congr fun part hpart => ?_
    have hne : part ≠ "." := fun heq => hdot (heq ▸ hpart)
    simp [isName, hne]
  rw [← hup, ← List.countP_eq_length_filter]
  exact List.length_eq_countP_add_countP _

/-- Going up from a path by as many parts as there are names behind a part ends behind it by as many
parts as there are steps up. -/
theorem ancestor_names_behind {text part : String} {before behind : List String}
    (h : (ofText text).parts = before ++ part :: behind) :
    (ofText text).ancestor (behind.filter isName).length =
      ⟨(ofText text).rooted, before ++ part :: behind.take (behind.count "..")⟩ := by
  have hparts : (ofText text).parts =
      (before ++ part :: behind.take (behind.count "..")) ++ behind.drop (behind.count "..") := by
    rw [h, List.append_assoc, List.cons_append, List.take_append_drop]
  have hlength : (behind.drop (behind.count "..")).length = (behind.filter isName).length := by
    rw [List.length_drop, length_behind h, Nat.add_sub_cancel]
  rw [← hlength]
  exact ancestor_eq hparts

end Path

namespace Context

variable {settings : ContextSettings} {fs : FileSystem}

/-- Why the climb from a path ends. -/
def reason? (settings : ContextSettings) (fs : FileSystem) (path : Path) : Option Stop :=
  stop? settings fs path 1 none path.names.dropLast.reverse

theorem ofPath_of_reason? {text : String} {s : Stop}
    (h : reason? settings fs (Path.ofText text) = some s) :
    ofPath settings fs text = s.context := by
  have hne : (Path.ofText text).names ≠ [] := by
    intro hnil
    simp [reason?, hnil, stop?] at h
  rw [reason?] at h
  rw [ofPath_eq (List.dropLast_concat_getLast hne).symm, h]
  rfl

/-- The name that a climb ends with stands in the path with as many names behind it as the climb went
up, and the marker was found there. -/
theorem exists_of_reason?_marker {path : Path} {name : String} {height : Nat}
    (h : reason? settings fs path = some (.marker height name)) :
    hasMarker settings fs (path.ancestor height) = true ∧
      ∃ before behind, path.parts = before ++ name :: behind ∧
        (behind.filter Path.isName).length = height := by
  rcases stop?_cases settings fs path path.names.dropLast with ⟨hstop, -⟩ | ⟨i, s, hstop, -, hs⟩
  · cases h.symm.trans hstop
  · obtain rfl := Option.some.inj (hstop.symm.trans h)
    have hi := hs.lt_length
    cases hs with
    | marker hdirectory hmarker =>
      refine ⟨hmarker, ?_⟩
      obtain ⟨_, rfl⟩ := List.getElem?_eq_some_iff.mp hdirectory
      have hne : path.names ≠ [] := by
        intro hnil
        simp [hnil] at hi
      have hnames : path.parts.filter Path.isName = path.names.dropLast.take i ++
          path.names.dropLast[i] ::
            (path.names.dropLast.drop (i + 1) ++ [path.names.getLast hne]) := by
        rw [← List.cons_append, List.getElem_cons_drop, ← List.append_assoc, List.take_append_drop]
        exact (List.dropLast_concat_getLast hne).symm
      obtain ⟨front, back, hparts, -, hback⟩ := List.filter_eq_append_iff.mp hnames
      obtain ⟨gap, behind, rfl, -, -, hbehind⟩ := List.filter_eq_cons_iff.mp hback
      refine ⟨front ++ gap, behind, by rw [hparts, List.append_assoc], ?_⟩
      rw [hbehind, List.length_append, List.length_drop, List.length_singleton]
      omega

/-- Wherever the climb from a path ends at a marker, it gives a name of the path, and the path on which
the marker was found goes on behind that name by as many parts as there are steps up behind it. So it
is the path up to the name just if no step up stands behind the name. -/
theorem marker_found_at {text name : String} {height : Nat}
    (h : reason? settings fs (Path.ofText text) = some (.marker height name)) :
    ofPath settings fs text = name ∧
      HoldsMarker settings fs ((Path.ofText text).ancestor height) ∧
      ∃ before behind, (Path.ofText text).parts = before ++ name :: behind ∧
        (behind.filter Path.isName).length = height ∧
        (Path.ofText text).ancestor height =
          ⟨(Path.ofText text).rooted, before ++ name :: behind.take (behind.count "..")⟩ ∧
        ((Path.ofText text).ancestor height = ⟨(Path.ofText text).rooted, before ++ [name]⟩ ↔
          ".." ∉ behind) := by
  obtain ⟨hmarker, before, behind, hparts, hheight⟩ := exists_of_reason?_marker h
  have hancestor : (Path.ofText text).ancestor height =
      ⟨(Path.ofText text).rooted, before ++ name :: behind.take (behind.count "..")⟩ := by
    rw [← hheight]
    exact Path.ancestor_names_behind hparts
  refine ⟨ofPath_of_reason? h, ?_, before, behind, hparts, hheight, hancestor, ?_⟩
  · refine (hasMarker_iff ?_).mp hmarker
    simp [hancestor]
  · have hnil : behind = [] → ".." ∉ behind := by
      rintro rfl
      exact List.not_mem_nil
    rw [hancestor]
    simpa [List.count_eq_zero] using hnil

/-- Directories with a project in the outer one. -/
def nestedFiles : FileSystem :=
  (FileSystem.addFile {} ⟨false, ["a", "package.json"]⟩ [] none).makeDirectories ⟨false, ["a", "b"]⟩

/-- Steps up before a name do no harm. -/
theorem marker_found_behind_steps :
    reason? {} nestedFiles (Path.ofText "a/b/../../a/f.cs") = some (.marker 1 "a") ∧
      ofPath {} nestedFiles "a/b/../../a/f.cs" = "a" ∧
      HoldsMarker {} nestedFiles ((Path.ofText "a/b/../../a/f.cs").ancestor 1) := by
  have h : reason? {} nestedFiles (Path.ofText "a/b/../../a/f.cs") = some (.marker 1 "a") := by
    decide
  obtain ⟨hname, hmarker, -⟩ := marker_found_at h
  exact ⟨h, hname, hmarker⟩

/-- The marker of a directory is attributed to a directory within it. -/
theorem marker_misattributed :
    reason? {} nestedFiles (Path.ofText "a/b/../f.cs") = some (.marker 1 "b") ∧
      ofPath {} nestedFiles "a/b/../f.cs" = "b" ∧
      ¬ HoldsMarker {} nestedFiles ⟨false, ["a", "b"]⟩ := by
  refine ⟨by decide, by decide, fun h => ?_⟩
  exact absurd ((hasMarker_iff (by decide)).mpr h) (by decide)

end Context

end CodeSurvey
