import CodeSurvey.Files.Context
import CodeSurvey.Proofs.Text.Occurrence
import Mathlib.Order.Bounds.Basic

/-!
# Climbing from a file to its context

A directory holds a marker if the marker leads from it to a file, or if one of its entries has the
extension that the marker asks for. The climb from a file to its context ends at the nearest directory
that holds a marker or is a source root with a directory below it on the way; with its reason kept, it
is described by the greatest index of such a directory.
-/

namespace CodeSurvey

theorem Text.afterStart?_eq_some {p s rest : String} :
    Text.afterStart? p s = some rest ↔ s = p ++ rest := by
  rw [Text.afterStart?_eq_some_iff, ← String.toList_append, String.toList_inj]

/-- Going up by as many parts as stand at the end of a path leaves those before them. -/
theorem Path.ancestor_eq {p : Path} {front back : List String} (h : p.parts = front ++ back) :
    p.ancestor back.length = ⟨p.rooted, front⟩ := by
  rw [Path.ancestor, h, List.length_append, Nat.add_sub_cancel, List.take_left]

namespace FileSystem

variable {fs : FileSystem} {rooted : Bool} {parts : List String} {l : Location}

/-- The pieces of a path lead from a location to a file. -/
def LeadsToFile (fs : FileSystem) (start : Location) (pieces : List String) : Prop :=
  ∃ l bytes tree, pieces.foldlM fs.step start = .ok l ∧ fs.entry? l = some (.file bytes tree)

theorem isFileAt_iff {pieces : List String} :
    fs.isFileAt rooted pieces = true ↔ fs.LeadsToFile ⟨rooted, []⟩ pieces := by
  unfold isFileAt follow LeadsToFile
  cases pieces.foldlM fs.step ⟨rooted, []⟩ with
  | error fault => simp
  | ok l =>
    cases hentry : fs.entry? l with
    | none => simp [hentry]
    | some e => cases e <;> simp [hentry]

theorem of_directoryAt? (h : fs.directoryAt? rooted parts = some l) :
    fs.follow rooted parts = .ok l ∧ fs.entry? l = some .directory := by
  unfold directoryAt? at h
  cases hfollow : fs.follow rooted parts with
  | error fault => simp [hfollow] at h
  | ok l' =>
    cases hentry : fs.entry? l' with
    | none => simp [hfollow, hentry] at h
    | some e =>
      cases e with
      | file bytes tree => simp [hfollow, hentry] at h
      | directory =>
        obtain rfl : l' = l := by simpa [hfollow, hentry] using h
        exact ⟨rfl, hentry⟩

/-- What follows the path of a directory leads on from the directory. -/
theorem leadsToFile_append (h : fs.directoryAt? rooted parts = some l) (pieces : List String) :
    fs.LeadsToFile ⟨rooted, []⟩ (parts ++ pieces) ↔ fs.LeadsToFile l pieces := by
  have hparts : parts.foldlM fs.step ⟨rooted, []⟩ = .ok l := (of_directoryAt? h).1
  unfold LeadsToFile
  rw [List.foldlM_append, hparts]
  rfl

theorem not_leadsToFile_nil (h : fs.entry? l = some .directory) : ¬ fs.LeadsToFile l [] := by
  rintro ⟨_, bytes, tree, hend, hfile⟩
  cases hend
  rw [h] at hfile
  cases hfile

theorem not_leadsToFile_dot (h : fs.entry? l = some .directory) : ¬ fs.LeadsToFile l ["."] := by
  rintro ⟨l', bytes, tree, hend, hfile⟩
  have hdot : ["."].foldlM fs.step l = .ok l := by
    simp [step, h]
  rw [hdot] at hend
  exact not_leadsToFile_nil h ⟨l', bytes, tree, hend, hfile⟩

end FileSystem

namespace Context

/-! ## Markers -/

/-- Where the way that a marker gives begins: at the directory, unless it starts with a slash. -/
def markerStart (directory : Location) (marker : String) : Location :=
  if Text.startsWith "/" marker then ⟨true, []⟩ else directory

/-- The path is that of a directory that holds a marker: a plain marker that is a file there, or an
entry with the extension of a marker `*.extension`, in any case of the basic letters. -/
inductive HoldsMarker (settings : ContextSettings) (fs : FileSystem) (path : Path) : Prop
  | file {marker : String} {directory : Location}
      (hmarker : marker ∈ settings.markers)
      (hplain : ∀ extension, marker ≠ "*." ++ extension)
      (hdirectory : fs.directoryAt? path.rooted path.parts = some directory)
      (hfile : fs.LeadsToFile (markerStart directory marker) (FileSystem.trail marker))
  | entry {extension : String} {directory : Location} {name ending : String} {e : Entry}
      (hmarker : "*." ++ extension ∈ settings.markers)
      (hdirectory : fs.directoryAt? path.rooted path.parts = some directory)
      (hentry : (name, e) ∈ fs.list directory)
      (hextension : Path.extensionOf? name = some ending)
      (hcase : Text.lowerAscii ending = Text.lowerAscii extension)

variable {settings : ContextSettings} {fs : FileSystem} {path : Path} {directory : Location}

theorem hasExtension_iff {extension : String} :
    hasExtension fs directory extension = true ↔
      ∃ name e, (name, e) ∈ fs.list directory ∧ ∃ ending, Path.extensionOf? name = some ending ∧
        Text.lowerAscii extension = Text.lowerAscii ending := by
  simp only [hasExtension, List.any_eq_true, Prod.exists, Option.any_eq_true, Text.sameIgnoringCase,
    beq_iff_eq]

/-- A plain marker asks for a file where it leads to from the directory. -/
theorem matchesMarker_plain {marker : String} (hplain : ∀ extension, marker ≠ "*." ++ extension)
    (hdirectory : fs.directoryAt? path.rooted path.parts = some directory) :
    matchesMarker fs path directory marker = true ↔
      fs.LeadsToFile (markerStart directory marker) (FileSystem.trail marker) := by
  have hafter : Text.afterStart? "*." marker = none := by
    rw [Option.eq_none_iff_forall_ne_some]
    intro extension h
    exact hplain extension (Text.afterStart?_eq_some.mp h)
  have hentry := (FileSystem.of_directoryAt? hdirectory).2
  simp only [matchesMarker, hafter, markerStart]
  split_ifs with hslash hempty
  · exact FileSystem.isFileAt_iff
  · -- an empty marker asks for the directory itself, which is no file
    rw [FileSystem.isFileAt_iff, FileSystem.leadsToFile_append hdirectory]
    obtain rfl : marker = "" := by simpa using hempty
    exact iff_of_false (FileSystem.not_leadsToFile_dot hentry)
      (FileSystem.not_leadsToFile_nil hentry)
  · rw [FileSystem.isFileAt_iff, FileSystem.leadsToFile_append hdirectory]

theorem matchesMarker_extension {extension : String} :
    matchesMarker fs path directory ("*." ++ extension) = hasExtension fs directory extension := by
  have hafter : Text.afterStart? "*." ("*." ++ extension) = some extension :=
    Text.afterStart?_eq_some.mpr rfl
  rw [matchesMarker, hafter]

/-- Looking for a marker at a path finds out whether a directory with a marker is there. -/
theorem hasMarker_iff (hparts : path.parts ≠ []) :
    hasMarker settings fs path = true ↔ HoldsMarker settings fs path := by
  have hnonempty : ¬ (path.parts.isEmpty && !path.rooted) = true := by simp [hparts]
  rw [hasMarker, if_neg hnonempty]
  constructor
  · intro h
    cases hdirectory : fs.directoryAt? path.rooted path.parts with
    | none => simp [hdirectory] at h
    | some directory =>
      rw [hdirectory, List.any_eq_true] at h
      obtain ⟨marker, hmarker, hmatches⟩ := h
      by_cases hstar : ∃ extension, marker = "*." ++ extension
      · obtain ⟨extension, rfl⟩ := hstar
        rw [matchesMarker_extension, hasExtension_iff] at hmatches
        obtain ⟨name, e, hentry, ending, hextension, hcase⟩ := hmatches
        exact .entry hmarker hdirectory hentry hextension hcase.symm
      · have hplain (extension : String) : marker ≠ "*." ++ extension :=
          fun h => hstar ⟨extension, h⟩
        exact .file hmarker hplain hdirectory ((matchesMarker_plain hplain hdirectory).mp hmatches)
  · intro h
    cases h with
    | file hmarker hplain hdirectory hfile =>
      rw [hdirectory, List.any_eq_true]
      exact ⟨_, hmarker, (matchesMarker_plain hplain hdirectory).mpr hfile⟩
    | entry hmarker hdirectory hentry hextension hcase =>
      rw [hdirectory, List.any_eq_true]
      refine ⟨_, hmarker, ?_⟩
      rw [matchesMarker_extension, hasExtension_iff]
      exact ⟨_, _, hentry, _, hextension, hcase.symm⟩

/-! ## Why a climb ends -/

/-- Why a climb ends, so many parts above the file: at a directory with a marker, or at a source root,
where the directory below it counts. -/
inductive Stop where
  | marker (height : Nat) (directory : String)
  | sourceRoot (height : Nat) (below : String)
  deriving Repr, DecidableEq

def Stop.context : Stop → String
  | marker _ directory => directory
  | sourceRoot _ below => below

/-- The climb that keeps why it ends. -/
def stop? (settings : ContextSettings) (fs : FileSystem) (path : Path) (height : Nat)
    (below : Option String) : List String → Option Stop
  | [] => none
  | directory :: rest =>
    if hasMarker settings fs (path.ancestor height) then some (.marker height directory)
    else
      match below with
      | some name =>
        if isSourceRoot settings directory then some (.sourceRoot height name)
        else stop? settings fs path (height + 1) (some directory) rest
      | none => stop? settings fs path (height + 1) (some directory) rest

theorem climb_eq_stop? (height : Nat) (below : Option String) (directories : List String) :
    climb settings fs path height below directories =
      (stop? settings fs path height below directories).map Stop.context := by
  induction directories generalizing height below with
  | nil => rfl
  | cons directory rest ih =>
    by_cases hmarker : hasMarker settings fs (path.ancestor height) = true
    · simp [climb, stop?, hmarker, Stop.context]
    · cases below with
      | none => simp [climb, stop?, hmarker, ih]
      | some name =>
        by_cases hroot : isSourceRoot settings directory = true
        · simp [climb, stop?, hmarker, hroot, Stop.context]
        · simp [climb, stop?, hmarker, hroot, ih]

/-- The context of a path is the one that its climb ends with, or else the nearest directory, or else
the name of the file. -/
theorem ofPath_eq {text name : String} {directories : List String}
    (hnames : (Path.ofText text).names = directories ++ [name]) :
    ofPath settings fs text =
      ((stop? settings fs (Path.ofText text) 1 none directories.reverse).map Stop.context).getD
        (directories.getLast?.getD (Path.stemOf name)) := by
  simp only [ofPath, hnames, List.reverse_concat, climb_eq_stop?, ← List.head?_reverse]
  cases stop? settings fs (Path.ofText text) 1 none directories.reverse <;> rfl

/-- What ends a climb through directories, listed from the top, at the one with an index. -/
inductive StopsAt (settings : ContextSettings) (fs : FileSystem) (path : Path)
    (directories : List String) (i : Nat) : Stop → Prop
  | marker {directory : String} (hdirectory : directories[i]? = some directory)
      (hmarker : hasMarker settings fs (path.ancestor (directories.length - i)) = true) :
      StopsAt settings fs path directories i (.marker (directories.length - i) directory)
  | sourceRoot {directory below : String} (hdirectory : directories[i]? = some directory)
      (hbelow : directories[i + 1]? = some below)
      (hroot : isSourceRoot settings directory = true)
      (hmarker : ¬ hasMarker settings fs (path.ancestor (directories.length - i)) = true) :
      StopsAt settings fs path directories i (.sourceRoot (directories.length - i) below)

variable {directories : List String} {i : Nat} {s : Stop}

theorem StopsAt.lt_length (h : StopsAt settings fs path directories i s) :
    i < directories.length := by
  cases h with
  | marker hdirectory | sourceRoot hdirectory => exact (List.getElem?_eq_some_iff.mp hdirectory).1

theorem stop?_of_stopsAt {directory : String} {rest : List String}
    (hdirectory : directories[i]? = some directory)
    (h : StopsAt settings fs path directories i s) :
    stop? settings fs path (directories.length - i) directories[i + 1]? (directory :: rest) =
      some s := by
  cases h with
  | marker hdirectory' hmarker =>
    rw [Option.some.inj (hdirectory.symm.trans hdirectory')]
    cases directories[i + 1]? <;> rw [stop?, if_pos hmarker]
  | sourceRoot hdirectory' hbelow hroot hmarker =>
    rw [Option.some.inj (hdirectory.symm.trans hdirectory'), hbelow, stop?, if_neg hmarker,
      if_pos hroot]

theorem stop?_of_not_stopsAt {directory : String} {rest : List String}
    (hdirectory : directories[i]? = some directory)
    (h : ∀ s, ¬ StopsAt settings fs path directories i s) :
    stop? settings fs path (directories.length - i) directories[i + 1]? (directory :: rest) =
      stop? settings fs path (directories.length - i + 1) directories[i]? rest := by
  have hmarker : ¬ hasMarker settings fs (path.ancestor (directories.length - i)) = true :=
    fun hmarker => h _ (.marker hdirectory hmarker)
  cases hbelow : directories[i + 1]? with
  | none => rw [stop?, if_neg hmarker, hdirectory]
  | some below =>
    have hroot : ¬ isSourceRoot settings directory = true :=
      fun hroot => h _ (.sourceRoot hdirectory hbelow hroot hmarker)
    rw [stop?, if_neg hmarker, if_neg hroot, hdirectory]

variable (settings fs path)

/-- A climb through the first `k` directories ends at the greatest index at which it can end. -/
theorem stop?_take {k : Nat} (hk : k ≤ directories.length) :
    (stop? settings fs path (directories.length - k + 1) directories[k]?
        (directories.take k).reverse = none ∧
      ∀ i < k, ∀ s, ¬ StopsAt settings fs path directories i s) ∨
    ∃ i s, stop? settings fs path (directories.length - k + 1) directories[k]?
        (directories.take k).reverse = some s ∧
      IsGreatest {i | i < k ∧ ∃ s, StopsAt settings fs path directories i s} i ∧
      StopsAt settings fs path directories i s := by
  induction k with
  | zero => exact .inl ⟨rfl, fun i hi => absurd hi (Nat.not_lt_zero i)⟩
  | succ k ih =>
    have hdirectory : directories[k]? = some directories[k] := List.getElem?_eq_getElem hk
    have hheight : directories.length - (k + 1) + 1 = directories.length - k := by omega
    rw [List.take_succ_eq_append_getElem hk, List.reverse_concat, hheight]
    by_cases hstops : ∃ s, StopsAt settings fs path directories k s
    · obtain ⟨s, hs⟩ := hstops
      refine .inr ⟨k, s, stop?_of_stopsAt hdirectory hs, ⟨⟨k.lt_succ_self, s, hs⟩, ?_⟩, hs⟩
      exact fun i hi => Nat.le_of_lt_succ hi.1
    · have hnone (s : Stop) : ¬ StopsAt settings fs path directories k s :=
        fun hs => hstops ⟨s, hs⟩
      rw [stop?_of_not_stopsAt hdirectory hnone]
      rcases ih (Nat.le_of_succ_le hk) with ⟨hstop, hbelow⟩ | ⟨i, s, hstop, hgreatest, hs⟩
      · refine .inl ⟨hstop, fun i hi s hs => ?_⟩
        rcases Nat.lt_succ_iff_lt_or_eq.mp hi with hi | rfl
        · exact hbelow i hi s hs
        · exact hnone s hs
      · refine .inr ⟨i, s, hstop, ⟨⟨hgreatest.1.1.trans k.lt_succ_self, s, hs⟩, ?_⟩, hs⟩
        rintro j ⟨hj, s', hs'⟩
        rcases Nat.lt_succ_iff_lt_or_eq.mp hj with hj | rfl
        · exact hgreatest.2 ⟨hj, s', hs'⟩
        · exact absurd hs' (hnone s')

variable (directories)

/-- A climb ends at the greatest index at which it can end. -/
theorem stop?_cases :
    (stop? settings fs path 1 none directories.reverse = none ∧
      ∀ i s, ¬ StopsAt settings fs path directories i s) ∨
    ∃ i s, stop? settings fs path 1 none directories.reverse = some s ∧
      IsGreatest {i | ∃ s, StopsAt settings fs path directories i s} i ∧
      StopsAt settings fs path directories i s := by
  have hall : {i | i < directories.length ∧ ∃ s, StopsAt settings fs path directories i s} =
      {i | ∃ s, StopsAt settings fs path directories i s} := by
    ext i
    exact and_iff_right_of_imp fun ⟨s, hs⟩ => hs.lt_length
  have h := stop?_take settings fs path (le_refl directories.length)
  rw [List.take_length, List.getElem?_eq_none le_rfl, Nat.sub_self, hall] at h
  exact h.imp_left fun ⟨hnone, hbelow⟩ => ⟨hnone, fun i s hs => hbelow i hs.lt_length s hs⟩

end Context

end CodeSurvey
