import CodeSurvey.Proofs.Detect.Findings

/-!
# The window around a finding

A finding shows the lines that it is about with a margin on both sides. Whichever rule makes it, the
lines shown follow from its first and its last line by one formula, which keeps the window within
the source. The bounds come out the same in words of 64 bits, where sums stop at the greatest word
and differences at zero, and never lie outside of the lines. Nothing else of a finding depends on
the margin.
-/

namespace CodeSurvey

/-! ## Windows -/

namespace Code

/-- The lines from one number to another, with both of them, counted from 1. -/
def linesBetween (lines : List String) (first last : Nat) : List String :=
  (lines.drop (first - 1)).take (last + 1 - first)

/-- The lines from `first` to `last` widened by a margin and kept within the source. -/
def window (lines : List String) (first last margin : Nat) : List String :=
  linesBetween lines (min (max (first - margin) 1) lines.length) (min (last + margin) lines.length)

theorem snippet_eq_window (lines : List String) (start stop margin : Nat) :
    snippet lines start stop margin =
      Text.joinLines (window lines (start + 1) (max start stop + 1) margin) := by
  cases lines with
  | nil =>
    rw [window, linesBetween, List.drop_nil, List.take_nil]
    rfl
  | cons line rest =>
    have hfirst : min (max (start + 1 - margin) 1) (rest.length + 1) - 1 =
        min (start - margin) (rest.length + 1 - 1) := by omega
    have hcount : min (max start stop + 1 + margin) (rest.length + 1) + 1 -
          min (max (start + 1 - margin) 1) (rest.length + 1) =
        min (max start stop + margin) (rest.length + 1 - 1) + 1 -
          min (start - margin) (rest.length + 1 - 1) := by omega
    rw [window, linesBetween, List.length_cons, hfirst, hcount]
    rfl

/-! ## Windows computed in words -/

/-- The sum of two words, or the greatest word where it is too large. -/
def addWords (a b : UInt64) : UInt64 :=
  if a.toNat + b.toNat < UInt64.size then a + b else .ofNat (UInt64.size - 1)

/-- The difference of two words, or zero where it is negative. -/
def subWords (a b : UInt64) : UInt64 := if b ≤ a then a - b else 0

theorem toNat_addWords (a b : UInt64) :
    (addWords a b).toNat = min (a.toNat + b.toNat) (UInt64.size - 1) := by
  unfold addWords
  split
  · next h =>
    rw [UInt64.toNat_add, Nat.mod_eq_of_lt h]
    omega
  · next h =>
    rw [UInt64.toNat_ofNat_of_lt' (by decide)]
    omega

theorem toNat_subWords (a b : UInt64) : (subWords a b).toNat = a.toNat - b.toNat := by
  unfold subWords
  split
  · next h => exact UInt64.toNat_sub_of_le a b h
  · next h =>
    rw [UInt64.le_iff_toNat_le] at h
    exact (Nat.sub_eq_zero_of_le (Nat.le_of_not_le h)).symm

theorem toNat_minWords (a b : UInt64) : (min a b).toNat = min a.toNat b.toNat := by
  change (if a ≤ b then a else b).toNat = _
  rw [apply_ite UInt64.toNat, min_def]
  simp only [UInt64.le_iff_toNat_le]

theorem toNat_maxWords (a b : UInt64) : (max a b).toNat = max a.toNat b.toNat := by
  change (if a ≤ b then b else a).toNat = _
  rw [apply_ite UInt64.toNat, max_def]
  simp only [UInt64.le_iff_toNat_le]

/-- A snippet whose bounds are computed in words. There is none if a bound is out of range. -/
def wordSnippet? (lines : List String) (start stop margin : UInt64) : Option String :=
  let count := UInt64.ofNat lines.length
  if count = 0 then some ""
  else
    let first := min (subWords start margin) (count - 1)
    let last := min (addWords (max start stop) margin) (count - 1)
    if first ≤ last ∧ last < count then
      some (Text.joinLines ((lines.drop first.toNat).take (last.toNat + 1 - first.toNat)))
    else none

/-- In words the bounds are in range and those of the snippet. -/
theorem wordSnippet?_eq {lines : List String} (hlines : lines.length < UInt64.size)
    (start stop margin : UInt64) :
    wordSnippet? lines start stop margin =
      some (snippet lines start.toNat stop.toNat margin.toNat) := by
  have hcount : (UInt64.ofNat lines.length).toNat = lines.length :=
    UInt64.toNat_ofNat_of_lt' hlines
  cases lines with
  | nil => rfl
  | cons line rest =>
    rw [List.length_cons] at hlines hcount
    have hne : UInt64.ofNat (rest.length + 1) ≠ 0 := by
      intro hzero
      rw [hzero] at hcount
      cases hcount
    have hend : (UInt64.ofNat (rest.length + 1) - 1).toNat = rest.length := by
      have hone : 1 ≤ UInt64.ofNat (rest.length + 1) := by
        rw [UInt64.le_iff_toNat_le, hcount]
        exact Nat.le_add_left 1 rest.length
      rw [UInt64.toNat_sub_of_le _ _ hone, hcount]
      rfl
    have hfirst : (min (subWords start margin) (UInt64.ofNat (rest.length + 1) - 1)).toNat =
        min (start.toNat - margin.toNat) rest.length := by
      rw [toNat_minWords, toNat_subWords, hend]
    have hlast : (min (addWords (max start stop) margin)
          (UInt64.ofNat (rest.length + 1) - 1)).toNat =
        min (max start.toNat stop.toNat + margin.toNat) rest.length := by
      rw [toNat_minWords, toNat_addWords, toNat_maxWords, hend]
      -- a sum that stops at the greatest word lies behind the last line all the same
      omega
    have hrange : min (start.toNat - margin.toNat) rest.length ≤
          min (max start.toNat stop.toNat + margin.toNat) rest.length ∧
        min (max start.toNat stop.toNat + margin.toNat) rest.length < rest.length + 1 := by
      omega
    simp only [wordSnippet?, List.length_cons, if_neg hne, UInt64.le_iff_toNat_le,
      UInt64.lt_iff_toNat_lt, hfirst, hlast, hcount, if_pos hrange]
    rfl

end Code

/-! ## Hits on lines of the source -/

/-- The line on which a finding ends, where it begins if it has no end of its own. -/
def Finding.lastLine (f : Finding) : Nat := max f.lineNumber (f.endLineNumber.getD f.lineNumber)

def Finding.withoutContent (f : Finding) : Finding := { f with content := "" }

theorem Scene.excerpt_eq_window (scene : Scene) {spot : Spot} (h : 1 ≤ spot.firstLine) :
    scene.excerpt spot = Text.joinLines (Code.window scene.lines spot.firstLine
      (max spot.firstLine (spot.lastLine?.getD spot.firstLine)) scene.margin) := by
  cases spot with
  | line number =>
    have hnumber : number - 1 + 1 = number := Nat.sub_add_cancel h
    rw [excerpt, Code.snippet_eq_window, Nat.max_self, hnumber]
    simp only [Spot.firstLine, Spot.lastLine?, Option.getD_none, Nat.max_self]
  | rows first last =>
    rw [excerpt, Code.snippet_eq_window, ← Nat.add_max_add_right]
    rfl

/-- Hits that begin on a line counted from 1. -/
def Anchored (hits : List Hit) : Prop := ∀ hit ∈ hits, 1 ≤ hit.spot.firstLine

namespace Anchored

variable {α : Type} {items : List α}

theorem map {g : α → Hit} (h : ∀ x ∈ items, 1 ≤ (g x).spot.firstLine) : Anchored (items.map g) :=
  List.forall_mem_map.mpr h

theorem filterMap {g : α → Option Hit}
    (h : ∀ x ∈ items, ∀ hit, g x = some hit → 1 ≤ hit.spot.firstLine) :
    Anchored (items.filterMap g) := by
  intro hit hmem
  obtain ⟨x, hx, hg⟩ := List.mem_filterMap.mp hmem
  exact h x hx hit hg

theorem flatMap {g : α → List Hit} (h : ∀ x ∈ items, Anchored (g x)) :
    Anchored (items.flatMap g) := by
  intro hit hmem
  obtain ⟨x, hx, hg⟩ := List.mem_flatMap.mp hmem
  exact h x hx hit hg

end Anchored

/-- A rule whose hits begin on lines counted from 1, and that never asks for the margin. -/
structure Rule.Steady (r : Rule) : Prop where
  anchored : ∀ scene, Anchored (r.scan scene)
  blind : ∀ (scene : Scene) (margin : Nat),
    (r.scan { scene with margin }, r.reference { scene with margin }) =
      (r.scan scene, r.reference scene)

/-! ## The rules of the banks -/

theorem Code.one_le_lineOfQuoted (source name : String) (start : Nat) :
    1 ≤ (lineOfQuoted source name start).1 := by
  unfold lineOfQuoted
  dsimp only
  split
  · exact Nat.le_add_left 1 _
  · exact le_rfl

theorem Scene.one_le_of_mem_matchesOf {scene : Scene} {e : Regex} {found : Nat × Match}
    (h : found ∈ scene.matchesOf e) : 1 ≤ found.1 := by
  obtain ⟨m, -, rfl⟩ := List.mem_map.mp h
  exact Nat.le_add_left 1 _

namespace Anchored

variable {scene : Scene} {e : Regex}

/-- Hits on the lines of matches. -/
theorem of_matches {found : List (Nat × Match)} {g : Nat × Match → Hit}
    (hfound : found ⊆ scene.matchesOf e) (hg : ∀ p, (g p).spot = .line p.1) :
    Anchored (found.map g) := by
  apply map
  intro p hp
  rw [hg]
  exact Scene.one_le_of_mem_matchesOf (hfound hp)

theorem of_matchesOf {g : Nat × Match → Hit} (hg : ∀ p, (g p).spot = .line p.1) :
    Anchored ((scene.matchesOf e).map g) :=
  of_matches (List.Subset.refl _) hg

/-- Hits on nodes. -/
theorem of_sites {sites : List Site} {g : Site → Hit} (hg : ∀ s, (g s).spot = .ofSite s) :
    Anchored (sites.map g) := by
  apply map
  intro s _
  rw [hg]
  exact Nat.le_add_left 1 _

end Anchored

namespace Detect

theorem anchored_hardcodedSecret (name : String) (scene : Scene) :
    Anchored ((hardcodedSecret name).scan scene) :=
  .of_matches List.filter_sublist.subset fun _ => rfl

theorem CSharp.firstOnLine_subset (last : Nat) (found : List (Nat × Match)) :
    firstOnLine last found ⊆ found := by
  fun_induction firstOnLine last found with
  | case1 => exact List.Subset.refl []
  | case2 line m rest ih => exact List.subset_cons_of_subset _ ih
  | case3 last line m rest hne ih => exact List.cons_subset_cons _ ih

theorem CSharp.anchored_constructorInjection (scene : Scene) :
    Anchored (constructorInjection.scan scene) := by
  apply Anchored.filterMap
  intro site _ hit hhit
  dsimp only at hhit
  split at hhit
  · cases hhit
  · cases hhit
    exact Nat.le_add_left 1 _

theorem CSharp.anchored_agentBaseClass (scene : Scene) : Anchored (agentBaseClass.scan scene) := by
  apply Anchored.filterMap
  intro site _ hit hhit
  obtain ⟨base, -, rfl⟩ := Option.map_eq_some_iff.mp hhit
  exact Nat.le_add_left 1 _

theorem Terraform.anchored_unversionedProvider (scene : Scene) :
    Anchored (unversionedProvider.scan scene) := by
  apply Anchored.map
  intro found hfound
  rcases List.mem_append.mp hfound with hloose | hblock
  · exact Scene.one_le_of_mem_matchesOf (List.mem_of_mem_filter hloose)
  · exact Scene.one_le_of_mem_matchesOf (List.mem_of_mem_filter hblock)

theorem Terraform.anchored_unpinnedModule (scene : Scene) :
    Anchored (unpinnedModule.scan scene) := by
  apply Anchored.filterMap
  intro found hfound hit hhit
  dsimp only at hhit
  split at hhit
  · cases hhit
  · split at hhit
    · cases hhit
    · cases hhit
      exact Scene.one_le_of_mem_matchesOf hfound

theorem TypeScript.anchored_constructorInjection (scene : Scene) :
    Anchored (constructorInjection.scan scene) := by
  apply Anchored.filterMap
  intro found hfound hit hhit
  dsimp only at hhit
  split at hhit
  · cases hhit
  · cases hhit
    exact Scene.one_le_of_mem_matchesOf hfound

theorem Project.anchored_unversionedPackage (scene : Scene) :
    Anchored (unversionedPackage.scan scene) := by
  apply Anchored.filterMap
  intro found hfound hit hhit
  obtain ⟨name, -, rfl⟩ := Option.map_eq_some_iff.mp hhit
  exact Scene.one_le_of_mem_matchesOf (List.mem_of_mem_filter hfound)

theorem Project.anchored_legacyFramework (scene : Scene) :
    Anchored (legacyFramework.scan scene) := by
  apply Anchored.flatMap
  intro found hfound
  apply Anchored.map
  intro moniker _
  exact Scene.one_le_of_mem_matchesOf hfound

theorem Arm.one_le_of_mem_locate {source : String} {start : Nat} {resources : List Resource}
    {found : Nat × Resource} (h : found ∈ locate source start resources) : 1 ≤ found.1 := by
  fun_induction locate source start resources with
  | case1 => cases h
  | case2 start r rest symbol hsymbol ih =>
    rcases List.mem_cons.mp h with rfl | hlater
    · exact Code.one_le_lineOfQuoted _ _ _
    · exact ih hlater
  | case3 start r rest hsymbol line next hline ih =>
    rcases List.mem_cons.mp h with rfl | hlater
    · have hfirst := Code.one_le_lineOfQuoted source r.type start
      rw [hline] at hfirst
      exact hfirst
    · exact ih hlater

def SteadyBank (b : Bank) : Prop :=
  ∃ name rules, b = .ofRules name rules ∧ ∀ rule ∈ rules, rule.Steady

theorem SteadyBank.of_anchored {name : String} {rules : List Rule}
    (hanchored : ∀ scene, ∀ rule ∈ rules, Anchored (rule.scan scene))
    (hblind : ∀ (scene : Scene) (margin : Nat),
      (rules.map fun r => (r.scan { scene with margin }, r.reference { scene with margin })) =
        rules.map fun r => (r.scan scene, r.reference scene)) :
    SteadyBank (.ofRules name rules) :=
  ⟨name, rules, rfl, fun rule hrule => ⟨fun scene => hanchored scene rule hrule,
    fun scene margin => List.map_inj_left.mp (hblind scene margin) rule hrule⟩⟩

theorem CSharp.steadyBank : SteadyBank bank := by
  refine .of_anchored (fun scene => ?_) fun _ _ => rfl
  simp only [List.forall_mem_cons]
  exact ⟨.of_matchesOf fun _ => rfl, anchored_constructorInjection scene,
    anchored_agentBaseClass scene, .of_matchesOf fun _ => rfl, .of_sites fun _ => rfl,
    .of_matches (firstOnLine_subset 0 _) fun _ => rfl, .of_sites fun _ => rfl,
    .of_matchesOf fun _ => rfl, .of_sites fun _ => rfl, .of_sites fun _ => rfl,
    anchored_hardcodedSecret _ scene, List.forall_mem_nil _⟩

theorem VisualBasic.steadyBank : SteadyBank bank := by
  refine .of_anchored (fun scene => ?_) fun _ _ => rfl
  simp only [List.forall_mem_cons]
  exact ⟨.of_matchesOf fun _ => rfl, .of_matchesOf fun _ => rfl, anchored_hardcodedSecret _ scene,
    List.forall_mem_nil _⟩

theorem TypeScript.steadyBank : SteadyBank bank := by
  refine .of_anchored (fun scene => ?_) fun _ _ => rfl
  simp only [List.forall_mem_cons]
  exact ⟨.of_matchesOf fun _ => rfl, anchored_constructorInjection scene,
    .of_matchesOf fun _ => rfl, .of_matchesOf fun _ => rfl, .of_matchesOf fun _ => rfl,
    .of_sites fun _ => rfl, anchored_hardcodedSecret _ scene, List.forall_mem_nil _⟩

theorem Python.steadyBank : SteadyBank bank := by
  refine .of_anchored (fun scene => ?_) fun _ _ => rfl
  simp only [List.forall_mem_cons]
  exact ⟨.of_matchesOf fun _ => rfl, .of_sites fun _ => rfl, .of_sites fun _ => rfl,
    .of_matchesOf fun _ => rfl, .map fun _ _ => Nat.le_add_left 1 _, .of_matchesOf fun _ => rfl,
    anchored_hardcodedSecret _ scene, List.forall_mem_nil _⟩

theorem Dart.steadyBank : SteadyBank bank := by
  refine .of_anchored (fun scene => ?_) fun _ _ => rfl
  simp only [List.forall_mem_cons]
  exact ⟨.of_matchesOf fun _ => rfl, .of_matchesOf fun _ => rfl, .of_matchesOf fun _ => rfl,
    anchored_hardcodedSecret _ scene, List.forall_mem_nil _⟩

theorem Terraform.steadyBank : SteadyBank bank := by
  refine .of_anchored (fun scene => ?_) fun _ _ => rfl
  simp only [List.forall_mem_cons]
  exact ⟨anchored_unversionedProvider scene, anchored_unpinnedModule scene,
    .of_matchesOf fun _ => rfl, .of_matches List.filter_sublist.subset fun _ => rfl,
    .of_matches List.filter_sublist.subset fun _ => rfl, anchored_hardcodedSecret _ scene,
    List.forall_mem_nil _⟩

theorem Bicep.steadyBank : SteadyBank bank := by
  refine .of_anchored (fun scene => ?_) fun _ _ => rfl
  simp only [List.forall_mem_cons]
  exact ⟨.of_matchesOf fun _ => rfl, .of_matches List.filter_sublist.subset fun _ => rfl,
    .of_matches List.filter_sublist.subset fun _ => rfl, .of_matchesOf fun _ => rfl,
    List.forall_mem_nil _⟩

theorem Arm.steadyBank : SteadyBank bank := by
  refine .of_anchored (fun scene => ?_) fun _ _ => rfl
  simp only [List.forall_mem_cons]
  exact ⟨.map fun _ hfound => one_le_of_mem_locate hfound,
    .map fun _ _ => Code.one_le_lineOfQuoted _ _ _,
    .map fun _ hfound => one_le_of_mem_locate (List.mem_of_mem_filter hfound),
    anchored_hardcodedSecret _ scene, List.forall_mem_nil _⟩

theorem Project.steadyBank : SteadyBank bank := by
  refine .of_anchored (fun scene => ?_) fun _ _ => rfl
  simp only [List.forall_mem_cons]
  exact ⟨anchored_unversionedPackage scene, anchored_legacyFramework scene, List.forall_mem_nil _⟩

end Detect

theorem steadyBank_of_mem_inspectedSurveys :
    ∀ s ∈ inspectedSurveys, Detect.SteadyBank s.bank := by
  simp only [inspectedSurveys, List.forall_mem_cons]
  exact ⟨Detect.CSharp.steadyBank, Detect.VisualBasic.steadyBank, Detect.TypeScript.steadyBank,
    Detect.Python.steadyBank, Detect.Dart.steadyBank, Detect.Terraform.steadyBank,
    Detect.Bicep.steadyBank, Detect.Arm.steadyBank, Detect.Project.steadyBank,
    List.forall_mem_nil _⟩

/-! ## The findings of the banks -/

namespace Finding

/-- The lines shown come out the same when their bounds are computed in words. -/
def ShownInWords (scene : Scene) (f : Finding) : Prop :=
  ∀ line last margin : UInt64, line.toNat = f.lineNumber →
    last.toNat = f.endLineNumber.getD f.lineNumber → margin.toNat = scene.margin →
    scene.lines.length < UInt64.size →
    Code.wordSnippet? scene.lines (Code.subWords line 1) (Code.subWords last 1) margin =
      some f.content

/-- A finding that begins on a line counted from 1 and shows the window around its lines. -/
structure Windowed (scene : Scene) (f : Finding) : Prop where
  one_le_line : 1 ≤ f.lineNumber
  content_eq : f.content =
    Text.joinLines (Code.window scene.lines f.lineNumber f.lastLine scene.margin)

theorem Windowed.shownInWords {scene : Scene} {f : Finding} (h : f.Windowed scene) :
    f.ShownInWords scene := by
  intro line last margin hline hlast hmargin hlines
  have hone : (1 : UInt64).toNat = 1 := rfl
  have hpos := h.one_le_line
  have hrange : f.lineNumber - 1 + 1 = f.lineNumber ∧
      max (f.lineNumber - 1) (f.endLineNumber.getD f.lineNumber - 1) + 1 = f.lastLine := by
    unfold lastLine
    omega
  rw [Code.wordSnippet?_eq hlines, Code.toNat_subWords, Code.toNat_subWords, hline, hlast, hmargin,
    hone, Code.snippet_eq_window, hrange.1, hrange.2, ← h.content_eq]

end Finding

namespace Rule

variable {r : Rule} {scene : Scene}

theorem Steady.windowed (h : r.Steady) {f : Finding} (hf : f ∈ r.findings scene) :
    f.Windowed scene := by
  unfold findings at hf
  split at hf
  · obtain ⟨hit, hhit, rfl⟩ := List.mem_map.mp hf
    have hanchored := h.anchored scene hit hhit
    exact ⟨hanchored, scene.excerpt_eq_window hanchored⟩
  · cases hf

/-- With another margin a steady rule makes the same findings, except for the lines shown. -/
theorem Steady.findings_margin (h : r.Steady) (scene : Scene) (margin : Nat) :
    (r.findings { scene with margin }).map Finding.withoutContent =
      (r.findings scene).map Finding.withoutContent := by
  have hadmits : r.admits { scene with margin } = r.admits scene := rfl
  obtain ⟨hscan, hreference⟩ := Prod.mk.inj (h.blind scene margin)
  have hfinding : Finding.withoutContent ∘ r.finding { scene with margin } =
      Finding.withoutContent ∘ r.finding scene := by
    funext hit
    simp only [Function.comp_apply, finding, Finding.withoutContent, hreference]
  unfold findings
  rw [hadmits, unguarded, unguarded, hscan]
  split
  · rw [List.map_map, List.map_map, hfinding]
  · rfl

end Rule

/-- Every finding of a bank begins on a line counted from 1 and shows just the lines around it, as
many on both sides as the margin says and the source has; computed in words, no sum or difference
overflows and no line out of range is asked for. With another margin a bank makes the same findings,
except for the lines shown. -/
theorem findings_windowed {s : InspectedSurvey} (hs : s ∈ inspectedSurveys)
    (disabled : List String) (scene : Scene) :
    (∀ f ∈ ((s.bank.without disabled).run scene).findings,
        1 ≤ f.lineNumber ∧
          f.content = Text.joinLines (Code.linesBetween scene.lines
            (min (max (f.lineNumber - scene.margin) 1) scene.lines.length)
            (min (f.lastLine + scene.margin) scene.lines.length)) ∧
          f.ShownInWords scene) ∧
      ∀ margin,
        ((s.bank.without disabled).run { scene with margin }).findings.map Finding.withoutContent =
          ((s.bank.without disabled).run scene).findings.map Finding.withoutContent := by
  obtain ⟨name, rules, hbank, hsteady⟩ := steadyBank_of_mem_inspectedSurveys s hs
  rw [hbank]
  constructor
  · intro f hf
    rw [Bank.run_without_ofRules] at hf
    obtain ⟨rule, hrule, hfound⟩ := List.mem_flatMap.mp hf
    have hwindowed := (hsteady rule (List.mem_of_mem_filter hrule)).windowed hfound
    exact ⟨hwindowed.one_le_line, hwindowed.content_eq, hwindowed.shownInWords⟩
  · intro margin
    rw [Bank.run_without_ofRules, Bank.run_without_ofRules]
    dsimp only
    rw [List.map_flatMap, List.map_flatMap]
    apply List.flatMap_congr
    intro rule hrule
    exact (hsteady rule (List.mem_of_mem_filter hrule)).findings_margin scene margin

/-- A call of `eval` on the second and third of four lines. -/
def evaluatedScene : Scene where
  filePath := "a.js"
  context := "web"
  source := "let a = 1;\neval(\n  a);\nlet b = 2;"
  tree := some (.node ⟨"program", "", true, false, false, false, 0, 32, 0, 3⟩ [
    .node ⟨"call_expression", "", true, false, false, false, 11, 21, 1, 2⟩ [
      .node ⟨"identifier", "function", true, false, false, false, 11, 15, 1, 1⟩ []]])
  margin := 18446744073709551615

/-- With the greatest margin of all the finding shows the whole source, with none just the call. -/
theorem windowed_evaluatedScene :
    ⟨Detect.TypeScript.bank, @TypeScript.survey⟩ ∈ inspectedSurveys ∧
      ((Detect.TypeScript.bank.without []).run evaluatedScene).findings.map
          (fun f => (f.lineNumber, f.endLineNumber, f.content)) =
        [(2, some 3, "let a = 1;\neval(\n  a);\nlet b = 2;")] ∧
      (∀ f ∈ ((Detect.TypeScript.bank.without []).run evaluatedScene).findings,
        1 ≤ f.lineNumber ∧ f.ShownInWords evaluatedScene) ∧
      ((Detect.TypeScript.bank.without []).run { evaluatedScene with margin := 0 }).findings.map
          (·.content) = ["eval(\n  a);"] ∧
      ((Detect.TypeScript.bank.without []).run { evaluatedScene with margin := 0 }).findings.map
          Finding.withoutContent =
        ((Detect.TypeScript.bank.without []).run evaluatedScene).findings.map
          Finding.withoutContent := by
  have hs : ⟨Detect.TypeScript.bank, @TypeScript.survey⟩ ∈ inspectedSurveys :=
    List.mem_cons_of_mem _ (List.mem_cons_of_mem _ List.mem_cons_self)
  obtain ⟨hwindowed, hmargin⟩ := findings_windowed hs [] evaluatedScene
  refine ⟨hs, by decide +kernel, ?_, by decide +kernel, hmargin 0⟩
  intro f hf
  obtain ⟨hline, -, hwords⟩ := hwindowed f hf
  exact ⟨hline, hwords⟩

end CodeSurvey
