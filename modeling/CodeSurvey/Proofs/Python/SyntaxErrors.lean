import CodeSurvey.Proofs.Detect.Disabling
import CodeSurvey.Proofs.Report.Stamp
import CodeSurvey.Proofs.Syntax.Recursion

/-!
# Syntax errors of Python sources

A node is at fault if it is an error or missing. The search for the first node at fault passes over
every subtree whose root says that it has no error, and stops at the first one it meets. Where the
roots are right about this, it still finds the first node at fault in pre-order. A Python source with
such a node is refused: the report holds nothing but the file, on which the line is noted, and the
error.
-/

namespace CodeSurvey

def NodeInfo.isFault (i : NodeInfo) : Bool := i.isError || i.isMissing

namespace Site

/-- From a site down, the nodes that say that they have an error are those that are at fault or have
a node at fault below them. -/
def Flagged (s : Site) : Prop :=
  ∀ u ∈ s.preorder, u.info.hasError = true ↔ ∃ v ∈ u.preorder, v.info.isFault = true

instance (s : Site) : Decidable s.Flagged :=
  inferInstanceAs (Decidable (∀ u ∈ s.preorder, _ ↔ ∃ v ∈ u.preorder, _))

/-- The first site at fault in pre-order. -/
def firstFault? (s : Site) : Option Site := s.preorder.find? (·.info.isFault)

/-! ## The search -/

/-- A visit of the search: what was found stays, and a node at fault is found. -/
def seek (found : Option Nat) (s : Site) : Option Nat × Bool :=
  if found.isSome then (found, false)
  else if s.info.isError || s.info.isMissing then (some s.line, false)
  else (none, s.info.hasError)

variable {s : Site}

theorem Flagged.child (h : s.Flagged) {b : Below s} (hb : b ∈ s.children) : b.site.Flagged := by
  intro u hu
  apply h u
  rw [preorder_eq]
  exact List.mem_cons_of_mem s (List.mem_flatMap.mpr ⟨b, hb, hu⟩)

theorem Flagged.hasError_iff (h : s.Flagged) :
    s.info.hasError = true ↔ ∃ v ∈ s.preorder, v.info.isFault = true := by
  apply h s
  rw [preorder_eq]
  exact List.mem_cons_self

theorem descend_seek_some (line : Nat) (s : Site) : descend seek (some line) s = some line := by
  rw [descend]
  rfl

/-- Going down from several sites after each other finds the first fault of all. -/
theorem foldl_seek (bs : List (Below s))
    (h : ∀ b ∈ bs, ∀ found, descend seek found b.site =
      found.or (b.site.firstFault?.map (·.line))) (found : Option Nat) :
    bs.foldl (fun found b => descend seek found b.site) found =
      found.or (((bs.flatMap fun b => b.site.preorder).find? (·.info.isFault)).map (·.line)) := by
  induction bs generalizing found with
  | nil => simp
  | cons b rest ih =>
    obtain ⟨hb, hrest⟩ := List.forall_mem_cons.mp h
    rw [List.foldl_cons, ih hrest, hb, List.flatMap_cons, List.find?_append, Option.map_or,
      Option.or_assoc]
    rfl

/-- Going down from a site finds the first fault in pre-order, unless one was found before. -/
theorem descend_seek (hflagged : s.Flagged) (found : Option Nat) :
    descend seek found s = found.or (s.firstFault?.map (·.line)) := by
  induction s using below_induction generalizing found with
  | step s ih =>
    cases found with
    | some line => exact descend_seek_some line s
    | none =>
      rw [Option.none_or, firstFault?, preorder_eq]
      cases hfault : s.info.isFault with
      | true =>
        have hvisit : seek none s = (some s.line, false) := if_pos hfault
        rw [descend, hvisit, List.find?_cons_of_pos (p := fun s : Site => s.info.isFault) hfault]
        rfl
      | false =>
        have hvisit : seek none s = (none, s.info.hasError) :=
          if_neg (Bool.eq_false_iff.mp hfault)
        rw [descend, hvisit, List.find?_cons_of_neg (by simp [hfault])]
        cases herror : s.info.hasError with
        | true =>
          have hchildren := foldl_seek s.children
            (fun b hb found => ih b (hflagged.child hb) found) none
          rw [Option.none_or] at hchildren
          exact hchildren
        | false =>
          -- the subtree that is passed over has no node at fault
          have hnone : (s.children.flatMap fun b => b.site.preorder).find?
              (·.info.isFault) = none := by
            refine List.find?_eq_none.mpr fun v hv hvfault => ?_
            refine Bool.eq_false_iff.mp herror (hflagged.hasError_iff.mpr ⟨v, ?_, hvfault⟩)
            rw [preorder_eq]
            exact List.mem_cons_of_mem s hv
          rw [hnone]
          rfl

end Site

/-- The line of the first error is that of the first node at fault in pre-order. -/
theorem Tree.firstErrorLine?_eq {t : Tree} (h : (Site.root t).Flagged) :
    t.firstErrorLine? = (Site.root t).firstFault?.map (·.line) := by
  have hwalk : Site.walk Site.seek [.root t] none = (Site.root t).firstFault?.map (·.line) := by
    rw [Site.walk_eq_foldl, List.foldl_cons, List.foldl_nil, Site.descend_seek h, Option.none_or]
  have hsearch : t.firstErrorLine? =
      if !t.info.hasError then none else some ((Site.walk Site.seek [.root t] none).getD 1) := rfl
  have hroot : t.info.hasError = true ↔ (Site.root t).firstFault?.isSome := by
    rw [Site.firstFault?, List.find?_isSome]
    exact h.hasError_iff
  rw [hsearch, hwalk]
  cases hfault : (Site.root t).firstFault? with
  | none =>
    rw [hfault] at hroot
    have hclean : t.info.hasError = false := by simpa using hroot
    simp [hclean]
  | some s =>
    rw [hfault] at hroot
    have hflag : t.info.hasError = true := hroot.mpr rfl
    simp [hflag]

/-! ## Notes on elements -/

namespace Report

/-- Recording facts leaves the notes on the elements before as they are, but for the ends of
blocks. -/
theorem prefix_notes_recordAll {key : String} (hkey : key ≠ "end_line") (place : Place)
    (r : Report) (facts : List Fact) :
    r.elements.map (·.metadata.get? key) <+:
      (r.recordAll place facts).elements.map (·.metadata.get? key) := by
  induction facts generalizing r with
  | nil => exact List.prefix_refl _
  | cons f rest ih =>
    refine List.IsPrefix.trans ?_ (ih (r.record place f))
    cases f with
    | declare owner d =>
      change _ <+: (r.elements ++ [_]).map _
      rw [List.map_append]
      exact List.prefix_append _ _
    | relate source target kind line properties => exact List.prefix_refl _
    | inject owner target line properties =>
      have hkept := map_modifyLast (g := fun e : Element => e.metadata.get? key)
        (f := (·.update (·.addDependency target))) (fun _ => rfl) (·.name = owner) r.elements
      exact hkept ▸ List.prefix_refl _
    | close position content lastLine =>
      have hkept := map_modify (g := fun e : Element => e.metadata.get? key)
        (f := (·.update fun d => { d with content }.note "end_line" (.nat lastLine)))
        (fun e => Fields.get?_set_of_ne hkey _ _) r.elements position
      exact hkept ▸ List.prefix_refl _

/-- A report on a source that is refused for an error on a line: the file, on which the error is
noted, the error, and nothing else. -/
structure Refused (r : Report) (path : String) (line : Nat) : Prop where
  file : ∃ file, r.elements = [file] ∧ file.kind = .file ∧ file.name = path ∧
    file.metadata.get? "has_syntax_errors" = some (.bool true) ∧
    file.metadata.get? "first_error_line" = some (.nat line)
  errors : r.errors =
    ["Syntax error in " ++ path ++ " at line " ++ Decimal.digitText line ++ ": invalid syntax"]
  relations : r.relations = []
  findings : r.findings = []

/-- A report that speaks of no syntax error, neither on the file nor among its errors. -/
structure Accepted (r : Report) (path : String) : Prop where
  file : ∃ file rest, r.elements = file :: rest ∧ file.kind = .file ∧ file.name = path ∧
    file.metadata.get? "has_syntax_errors" = none ∧ file.metadata.get? "first_error_line" = none
  errors : ∀ e ∈ r.errors, ¬ "Syntax error".toList <+: e.toList

end Report

/-! ## Surveys -/

namespace Python

variable {settings : Settings} {fs : FileSystem} {source : Source} {bank : Bank} {tree : Tree}

theorem refused_survey (hlive : source.cancelled = false) (htree : source.tree = some tree)
    {line : Nat} (hline : tree.firstErrorLine? = some line) :
    (survey settings fs source bank).Refused source.path line := by
  have hsurvey : survey settings fs source bank =
      ((Report.opening (source.place settings fs) source.content "Python").flagSyntaxError
        line).fail (.badSyntax source.path line "invalid syntax") := by
    simp [survey, hlive, checkedTree, htree, hline]
  rw [hsurvey]
  have hmessage : (Failure.badSyntax source.path line "invalid syntax").message =
      "Syntax error in " ++ source.path ++ " at line " ++ Decimal.digitText line ++
        ": invalid syntax" := String.append_assoc
  refine ⟨⟨_, rfl, rfl, rfl, ?_, ?_⟩, congrArg ([·]) hmessage, rfl, rfl⟩
  · exact (Fields.get?_set_of_ne (by decide) _ _).trans (Fields.get?_set_self _ _ _)
  · exact Fields.get?_set_self _ _ _

theorem accepted_survey (hlive : source.cancelled = false) (htree : source.tree = some tree)
    (hline : tree.firstErrorLine? = none) :
    (survey settings fs source bank).Accepted source.path := by
  have hsurvey : survey settings fs source bank =
      ((Report.opening (source.place settings fs) source.content "Python").recordAll
        (source.place settings fs) (facts source.path source.content tree)).detect
        settings.detectors bank
        { filePath := source.path, context := (source.place settings fs).context,
          source := source.content, tree := tree } := by
    simp [survey, hlive, checkedTree, htree, hline]
  have hopening : Report.Grown (source.place settings fs) source.content
      (.opening (source.place settings fs) source.content "Python") := .opening "Python"
  have hgrown := hopening.recordAll (owned_facts source.path source.content tree)
  obtain ⟨file, rest, helements, hkind, hname, -⟩ := hgrown.stamped.elements
  have hnotes {key : String} (hend : key ≠ "end_line")
      (hopening : (fileDeclaration source.path source.content "Python").metadata.get? key = none) :
      file.metadata.get? key = none := by
    have hprefix := Report.prefix_notes_recordAll hend (source.place settings fs)
      (.opening (source.place settings fs) source.content "Python")
      (facts source.path source.content tree)
    rw [helements, List.map_cons] at hprefix
    exact (List.cons_prefix_cons.mp hprefix).1.symm.trans hopening
  rw [hsurvey]
  refine ⟨⟨file, rest, ?_, hkind, hname, ?_, ?_⟩, ?_⟩
  · rw [Report.elements_detect, helements]
  · exact hnotes (by decide) (by simp [fileDeclaration, Fields.ofList, Fields.get?_set]; rfl)
  · exact hnotes (by decide) (by simp [fileDeclaration, Fields.ofList, Fields.get?_set]; rfl)
  · intro e he
    rw [Report.errors_detect, Report.errors_recordAll] at he
    obtain ⟨f, hf, rfl⟩ := List.mem_map.mp he
    exact Bank.not_prefix_message_of_mem_failures hf

/-- In a tree whose nodes say rightly whether they have an error, the line of the first error is that
of the first node at fault in pre-order, and there is none just if no node is at fault. A Python
source with such a node is refused on this line, and a source without one speaks of no syntax error,
whatever the detectors do. -/
theorem survey_of_flagged (settings : Settings) (fs : FileSystem) (source : Source) (bank : Bank)
    {tree : Tree} (hlive : source.cancelled = false) (htree : source.tree = some tree)
    (hflagged : (Site.root tree).Flagged) :
    (tree.firstErrorLine? = none ↔ ∀ s ∈ (Site.root tree).preorder, s.info.isFault = false) ∧
      (∀ s, (Site.root tree).firstFault? = some s →
        tree.firstErrorLine? = some (1 + s.info.startRow) ∧
          (survey settings fs source bank).Refused source.path (1 + s.info.startRow)) ∧
      ((∀ s ∈ (Site.root tree).preorder, s.info.isFault = false) →
        (survey settings fs source bank).Accepted source.path) := by
  have hline := Tree.firstErrorLine?_eq hflagged
  have hnone : tree.firstErrorLine? = none ↔
      ∀ s ∈ (Site.root tree).preorder, s.info.isFault = false := by
    rw [hline, Option.map_eq_none_iff, Site.firstFault?, List.find?_eq_none]
    simp
  refine ⟨hnone, ?_, fun hclean => accepted_survey hlive htree (hnone.mpr hclean)⟩
  intro s hfirst
  rw [hfirst, Option.map_some, Site.line, Nat.add_comm] at hline
  exact ⟨hline, refused_survey hlive htree hline⟩

/-- A node on one row of a text. -/
def nodeOn (row : Nat) (kind : String) (startByte endByte : Nat) (children : List Tree := [])
    (missing hasError : Bool := false) : Tree :=
  .node ⟨kind, "", true, false, missing, hasError, startByte, endByte, row, row⟩ children

/-- An import, and a call without its closing bracket. -/
def unclosedCall : Source where
  path := "a.py"
  content := "import os\nf(\n"
  tree := some (.node ⟨"module", "", true, false, false, true, 0, 13, 0, 2⟩ [
    nodeOn 0 "import_statement" 0 9 [nodeOn 0 "import" 0 6, nodeOn 0 "dotted_name" 7 9],
    nodeOn 1 "call" 10 12 [
      nodeOn 1 "identifier" 10 11,
      nodeOn 1 "argument_list" 11 12 [
        nodeOn 1 "(" 11 12, nodeOn 1 ")" 12 12 [] true true] false true] false true])

/-- The import is passed over, and the missing bracket is found on the second line. -/
theorem refused_unclosedCall :
    (∀ tree ∈ unclosedCall.tree, (Site.root tree).Flagged) ∧
      (survey {} {} unclosedCall Detect.Python.bank).Refused "a.py" 2 := by
  have hflagged : ∀ tree ∈ unclosedCall.tree, (Site.root tree).Flagged := by decide +kernel
  have hfirst : unclosedCall.tree.bind (fun tree =>
      (Site.root tree).firstFault?.map (·.info.startRow)) = some 1 := by decide +kernel
  obtain ⟨tree, htree, hfault⟩ := Option.bind_eq_some_iff.mp hfirst
  obtain ⟨s, hs, hrow⟩ := Option.map_eq_some_iff.mp hfault
  obtain ⟨-, hrefused, -⟩ := survey_of_flagged {} {} unclosedCall Detect.Python.bank rfl htree
    (hflagged tree htree)
  have hreport := (hrefused s hs).2
  rw [hrow] at hreport
  exact ⟨hflagged, hreport⟩

end Python

end CodeSurvey
