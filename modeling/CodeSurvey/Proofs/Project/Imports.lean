import CodeSurvey.Proofs.Markup.Positions
import CodeSurvey.Proofs.Project.Packages
import CodeSurvey.Proofs.Text.LineNumbers

/-!
# What a project imports

A project file imports what its reference elements include or update. Where none of them stands within
another, there is one relation for each that includes or updates something, in the order of the file
and with the line of its tag. Its version is the last text that stands directly in an element `Version`
within it, or else what its attributes say. The file then depends on what is imported, each thing once.
-/

namespace CodeSurvey.Project

open Markup (Located Tag localPart)

/-! ## Lines -/

/-- The line ahead of the position of a tag is the one on which the tag is written. -/
theorem lineAhead_of_writtenOn {content : String} {e : Located} {line : Nat}
    (h : e.WrittenOn content.toList line) : lineAhead content e.position = line := by
  obtain ⟨before, gap, inside, after, hcontent, hposition, hgap, -, rfl⟩ := h
  have hblanks : ((gap ++ '<' :: (inside ++ '>' :: after)).takeWhile Text.isBlank) = gap :=
    Markup.takeWhile_append_stop (fun c hc => Markup.isBlank_of_isSpace (hgap c hc))
      (by rintro c ⟨⟩; decide)
  rw [lineAhead, ← hposition, hcontent, Text.dropBytes_byteLength_append, hblanks,
    Text.lineOfOffset_eq, hcontent, ← Text.byteLength_append, ← List.append_assoc,
    Text.takeBytes_byteLength_append]

/-! ## Dependencies -/

/-- New dependencies follow the old ones, each once and in the order in which it comes first. -/
theorem dependencies_addDependencies (d : Declaration) (names : List String) :
    (d.addDependencies names).dependencies =
      d.dependencies ++ (names.filter (· ∉ d.dependencies)).eraseDups := by
  induction names generalizing d with
  | nil => exact (List.append_nil _).symm
  | cons name names ih =>
    refine (ih (d.addDependency name)).trans ?_
    by_cases hold : name ∈ d.dependencies
    · have hsame : d.addDependency name = d := by
        rw [Declaration.addDependency, addOnce, if_pos (List.elem_eq_true_of_mem hold)]
      rw [hsame, List.filter_cons_of_neg (by simpa using hold)]
    · have hnew : (d.addDependency name).dependencies = d.dependencies ++ [name] := by
        rw [Declaration.addDependency, addOnce, if_neg (by simpa using hold)]
      rw [hnew, List.filter_cons_of_pos (by simpa using hold), List.eraseDups_cons,
        List.filter_filter, List.append_assoc, List.singleton_append]
      congr 3
      refine List.filter_congr fun other _ => ?_
      rw [Bool.eq_iff_iff]
      simp [not_or, and_comm]

theorem find?_modifyFirst {α : Type} {p : α → Bool} {f : α → α} (h : ∀ x, p (f x) = p x)
    (xs : List α) : (Report.modifyFirst p f xs).find? p = (xs.find? p).map f := by
  induction xs with
  | nil => rfl
  | cons x xs ih =>
    rw [Report.modifyFirst]
    cases hx : p x with
    | true =>
      rw [if_pos rfl, List.find?_cons_of_pos ((h x).trans hx), List.find?_cons_of_pos hx]
      rfl
    | false =>
      rw [if_neg Bool.false_ne_true, List.find?_cons_of_neg (by simp [hx]),
        List.find?_cons_of_neg (by simp [hx]), ih]

theorem fileElement?_updateFile {f : Declaration → Declaration} (h : ∀ d, (f d).kind = d.kind)
    (r : Report) : (r.updateFile f).fileElement? = r.fileElement?.map (·.update f) := by
  refine find?_modifyFirst (fun e => ?_) r.elements
  rw [Element.update, h]

/-- Notes on properties change nothing but the metadata. -/
theorem exists_foldl_note (properties : List (String × String)) (d : Declaration) :
    ∃ metadata, properties.foldl (fun d e => d.note e.1 (propertyValue e.1 e.2)) d =
      { d with metadata } := by
  induction properties generalizing d with
  | nil => exact ⟨d.metadata, rfl⟩
  | cons e rest ih =>
    obtain ⟨metadata, h⟩ := ih (d.note e.1 (propertyValue e.1 e.2))
    exact ⟨metadata, h⟩

/-- What a project adds to the file: its properties, and what it refers to. -/
def fileUpdate (p : Progress) (d : Declaration) : Declaration :=
  (p.properties.foldl (fun d e => d.note e.1 (propertyValue e.1 e.2)) d).addDependencies
    (p.references.map Reference.target)

theorem kind_fileUpdate (p : Progress) (d : Declaration) : (fileUpdate p d).kind = d.kind := by
  obtain ⟨metadata, hnotes⟩ := exists_foldl_note p.properties d
  rw [fileUpdate, Declaration.kind_addDependencies, hnotes]

theorem dependencies_fileUpdate (p : Progress) (d : Declaration) :
    (fileUpdate p d).dependencies = d.dependencies ++
      ((p.references.map Reference.target).filter (· ∉ d.dependencies)).eraseDups := by
  obtain ⟨metadata, hnotes⟩ := exists_foldl_note p.properties d
  rw [fileUpdate, dependencies_addDependencies, hnotes]

theorem fileElement?_addProject {place : Place} {content : String} {p : Progress}
    (hread : readProject content = .ok p) (report : Report) :
    (addProject place content report).fileElement? =
      report.fileElement?.map (·.update (fileUpdate p)) := by
  have hadditive : ∀ f ∈ p.references.map (referenceFact place.path), f.Additive := by
    intro f hf
    obtain ⟨r, -, rfl⟩ := List.mem_map.mp hf
    exact trivial
  have hdeclared : declared place (p.references.map (referenceFact place.path)) = [] := by
    rw [declared, List.filterMap_map, List.filterMap_eq_nil_iff]
    exact fun r _ => rfl
  have helements : (addProject place content report).elements =
      (report.updateFile (fileUpdate p)).elements := by
    rw [addProject, hread]
    refine (Report.elements_recordAll place _ hadditive).trans ?_
    rw [hdeclared, List.append_nil]
    rfl
  rw [← fileElement?_updateFile (kind_fileUpdate p), Report.fileElement?, helements]
  rfl

/-! ## The imports of a project -/

/-- A project with a comment, a version in an element beside one in an attribute, a tag over two lines,
and an assembly with the name of a package. -/
def pinnedProject : String :=
  "<Project>\n<!-- -->\n<PackageReference Include=\"A\" Version=\"1\"><Version> 2 </Version>" ++
    "</PackageReference>\n<ProjectReference\nInclude=\"..\\B\"/><Reference Include=\"A, x\"/></Project>"

def pinnedForest : Forest :=
  .element 0 (.ofContent "Project".toList)
    (.skipped 9
    (.element 18 (.ofContent "PackageReference Include=\"A\" Version=\"1\"".toList)
      (.element 61 (.ofContent "Version".toList) (.text 70 "2" "2" rfl .done) 73 .done) 83
    (.empty 102 (.ofContent "ProjectReference\nInclude=\"..\\B\"".toList)
    (.empty 137 (.ofContent "Reference Include=\"A, x\"".toList) .done)))) 164
  .done

/-- Two versions in the element of one reference. -/
def twiceVersioned : String :=
  "<PackageReference Include=\"A\">\n<Version>1</Version>\n<Version>2</Version>\n</PackageReference>\n"

end CodeSurvey.Project
