import CodeSurvey.Proofs.Context.Climb

/-!
# The context of a file in its directories

For a path that goes from the root, or from where `.` and `..` lead, down through directories to a
file, the context is settled by the last directory that holds a marker or is a source root with a
directory below it: a marker gives the directory itself, a source root the directory below it. Where
there is none it is the last directory, and without directories the name of the file.
-/

namespace CodeSurvey.Context

/-- The path of a file: parts that are no names, then directories, then the name of the file. -/
structure Address where
  rooted : Bool
  lead : List String
  directories : List String
  file : String
  lead_not_name : ∀ part ∈ lead, ¬ Path.isName part = true
  directories_name : ∀ directory ∈ directories, Path.isName directory = true
  file_name : Path.isName file = true

namespace Address

def path (a : Address) : Path := ⟨a.rooted, a.lead ++ a.directories ++ [a.file]⟩

def upTo (a : Address) (i : Nat) : Path := ⟨a.rooted, a.lead ++ a.directories.take (i + 1)⟩

variable (settings : ContextSettings) (fs : FileSystem) (a : Address)

/-- The directory with an index has the name of a source root, in any case of the basic letters, and
another directory below it. -/
def IsRoot (i : Nat) : Prop :=
  i + 1 < a.directories.length ∧
    ∃ name ∈ a.directories[i]?, ∃ root ∈ settings.sourceRoots,
      Text.lowerAscii name = Text.lowerAscii root

/-- The directory with an index settles the context. -/
def Decides (i : Nat) : Prop :=
  i < a.directories.length ∧ (HoldsMarker settings fs (a.upTo i) ∨ a.IsRoot settings i)

/-- What the directory with an index gives as a context: its own name if it holds a marker, and
otherwise the name of the directory below it. -/
def Gives (i : Nat) (context : String) : Prop :=
  (HoldsMarker settings fs (a.upTo i) ∧ a.directories[i]? = some context) ∨
    (¬ HoldsMarker settings fs (a.upTo i) ∧ a.directories[i + 1]? = some context)

/-- The context of a file by its directories. -/
inductive Resolves : String → Prop
  | decided {i : Nat} {context : String} (hlast : IsGreatest {i | a.Decides settings fs i} i)
      (hgives : a.Gives settings fs i context) : Resolves context
  | undecided (hnone : ∀ i, ¬ a.Decides settings fs i) :
      Resolves (a.directories.getLast?.getD (Path.stemOf a.file))

variable {settings fs a}

theorem Gives.unique {i : Nat} {c c' : String} (h : a.Gives settings fs i c)
    (h' : a.Gives settings fs i c') : c = c' := by
  rcases h with ⟨hmarker, h⟩ | ⟨hmarker, h⟩ <;> rcases h' with ⟨hmarker', h'⟩ | ⟨hmarker', h'⟩
  · exact Option.some.inj (h.symm.trans h')
  · exact absurd hmarker hmarker'
  · exact absurd hmarker' hmarker
  · exact Option.some.inj (h.symm.trans h')

theorem Resolves.unique {c c' : String} (h : a.Resolves settings fs c)
    (h' : a.Resolves settings fs c') : c = c' := by
  cases h with
  | decided hlast hgives =>
    cases h' with
    | decided hlast' hgives' => exact hgives.unique (hlast.unique hlast' ▸ hgives')
    | undecided hnone => exact absurd hlast.1 (hnone _)
  | undecided hnone =>
    cases h' with
    | decided hlast hgives => exact absurd hlast.1 (hnone _)
    | undecided => rfl

theorem names_path (a : Address) : a.path.names = a.directories ++ [a.file] := by
  have hlead : a.lead.filter Path.isName = [] := List.filter_eq_nil_iff.mpr a.lead_not_name
  have hdirectories : a.directories.filter Path.isName = a.directories :=
    List.filter_eq_self.mpr a.directories_name
  simp [path, Path.names, List.filter_append, hlead, hdirectories, a.file_name]

theorem ancestor_path {i : Nat} (hi : i < a.directories.length) :
    a.path.ancestor (a.directories.length - i) = a.upTo i := by
  have hparts : a.path.parts = (a.lead ++ a.directories.take (i + 1)) ++
      (a.directories.drop (i + 1) ++ [a.file]) := by
    rw [← List.append_assoc, List.append_assoc a.lead, List.take_append_drop]
    rfl
  have hlength : (a.directories.drop (i + 1) ++ [a.file]).length = a.directories.length - i := by
    rw [List.length_append, List.length_drop, List.length_singleton]
    omega
  rw [← hlength]
  exact Path.ancestor_eq hparts

theorem hasMarker_upTo {i : Nat} (hi : i < a.directories.length) :
    hasMarker settings fs (a.path.ancestor (a.directories.length - i)) = true ↔
      HoldsMarker settings fs (a.upTo i) := by
  rw [ancestor_path hi]
  apply hasMarker_iff
  have hne : a.directories ≠ [] := List.ne_nil_of_length_pos (Nat.zero_lt_of_lt hi)
  simp [upTo, hne]

theorem isSourceRoot_iff {name : String} :
    isSourceRoot settings name = true ↔
      ∃ root ∈ settings.sourceRoots, Text.lowerAscii name = Text.lowerAscii root := by
  simp [isSourceRoot, Text.sameIgnoringCase]

/-- A climb can end at a directory just if that settles the context. -/
theorem exists_stopsAt_iff {i : Nat} :
    (∃ s, StopsAt settings fs a.path a.directories i s) ↔ a.Decides settings fs i := by
  constructor
  · rintro ⟨s, hs⟩
    have hi := hs.lt_length
    refine ⟨hi, ?_⟩
    cases hs with
    | marker _ hmarker => exact .inl ((hasMarker_upTo hi).mp hmarker)
    | sourceRoot hdirectory hbelow hroot =>
      have hi' := (List.getElem?_eq_some_iff.mp hbelow).1
      exact .inr ⟨hi', _, hdirectory, isSourceRoot_iff.mp hroot⟩
  · rintro ⟨hi, hdecides⟩
    have hdirectory := List.getElem?_eq_getElem hi
    by_cases hmarker : HoldsMarker settings fs (a.upTo i)
    · exact ⟨_, .marker hdirectory ((hasMarker_upTo hi).mpr hmarker)⟩
    · obtain ⟨hi', name, hname, hroot⟩ := hdecides.resolve_left hmarker
      exact ⟨_, .sourceRoot hname (List.getElem?_eq_getElem hi') (isSourceRoot_iff.mpr hroot)
        fun h => hmarker ((hasMarker_upTo hi).mp h)⟩

theorem resolves_ofPath {text : String} (htext : Path.ofText text = a.path) :
    a.Resolves settings fs (ofPath settings fs text) := by
  have hnames : (Path.ofText text).names = a.directories ++ [a.file] := by
    rw [htext, names_path]
  rw [ofPath_eq hnames, htext]
  rcases stop?_cases settings fs a.path a.directories with ⟨hstop, hnone⟩ | ⟨i, s, hstop, hlast, hs⟩
  · rw [hstop]
    refine .undecided fun i hi => ?_
    obtain ⟨s, hs⟩ := exists_stopsAt_iff.mpr hi
    exact hnone i s hs
  · simp only [exists_stopsAt_iff] at hlast
    rw [hstop]
    refine .decided hlast ?_
    have hi := hs.lt_length
    cases hs with
    | marker hdirectory hmarker => exact .inl ⟨(hasMarker_upTo hi).mp hmarker, hdirectory⟩
    | sourceRoot hdirectory hbelow hroot hmarker =>
      exact .inr ⟨fun h => hmarker ((hasMarker_upTo hi).mpr h), hbelow⟩

/-- The context of a file is the one that its directories give it. -/
theorem ofPath_eq_iff_resolves (settings : ContextSettings) (fs : FileSystem) (a : Address)
    {text : String} (htext : Path.ofText text = a.path) (context : String) :
    ofPath settings fs text = context ↔ a.Resolves settings fs context := by
  constructor
  · rintro rfl
    exact resolves_ofPath htext
  · exact (resolves_ofPath htext).unique

/-- A file below a source root in a project. -/
def orderFile : Address where
  rooted := false
  lead := ["."]
  directories := ["shop", "SRC", "Orders", "Domain"]
  file := "Order.cs"
  lead_not_name := by decide
  directories_name := by decide
  file_name := by decide

def shopFiles : FileSystem :=
  FileSystem.addFile {} ⟨false, ["shop", "Shop.CSPROJ"]⟩ [] none

/-- The source root is nearer to the file than the project. -/
theorem resolves_orderFile :
    Path.ofText "./shop//SRC/./Orders/Domain/Order.cs" = orderFile.path ∧
      HoldsMarker {} shopFiles (orderFile.upTo 0) ∧
      orderFile.Resolves {} shopFiles "Orders" := by
  have htext : Path.ofText "./shop//SRC/./Orders/Domain/Order.cs" = orderFile.path := by decide
  refine ⟨htext, ?_, ?_⟩
  · exact (hasMarker_iff (by decide)).mp (by decide)
  · exact (ofPath_eq_iff_resolves {} shopFiles orderFile htext "Orders").mp (by decide)

end Address

end CodeSurvey.Context
