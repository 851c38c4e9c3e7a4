import CodeSurvey.Proofs.Bicep.Partition
import CodeSurvey.Proofs.Detect.Findings
import CodeSurvey.Proofs.Text.Occurrence

/-!
# Decorators of a template and secret parameters

Decorators wait for the declaration after them, over other decorators, blank lines and comments. So
the decorators of a declaration stand on the lines above it, with nothing else in between. The rule
for secret parameters looks at the lines above, too, but only at those directly above that begin with
the sign of a decorator, and it asks for one spelling.
-/

namespace CodeSurvey.Bicep

/-! ## The decorators of a declaration -/

/-- The name and the arguments of the decorator on a line. -/
def decorator? (line : String) : Option (String × String) :=
  (decorator.find? (Text.trim line)).map fun m => (m.group 1, m.group 2)

/-- A line that decorators wait over: another decorator, a blank line or a comment. -/
def WaitedOver (line : String) : Prop :=
  (decorator? line).isSome ∨ (Text.trim line).isEmpty = true ∨
    Text.startsWith "//" (Text.trim line) = true

/-- What has been gathered before a line: the decorators of a stretch of lines directly above it. -/
def Gathered (lines : List String) (stop : Nat) (found : List (String × String)) : Prop :=
  ∃ above, above <:+ lines.take stop ∧ (∀ line ∈ above, WaitedOver line) ∧
    found = above.filterMap decorator?

namespace Gathered

variable {lines : List String} {stop : Nat} {found : List (String × String)} {line : String}

theorem nil (lines : List String) (stop : Nat) : Gathered lines stop [] :=
  ⟨[], List.nil_suffix, nofun, rfl⟩

/-- A line that is waited over adds its decorator. -/
theorem step (h : Gathered lines stop found) (hline : lines[stop]? = some line)
    (hwaited : WaitedOver line) :
    Gathered lines (stop + 1) (found ++ (decorator? line).toList) := by
  obtain ⟨above, ⟨before, hbefore⟩, hall, rfl⟩ := h
  refine ⟨above ++ [line], ⟨before, ?_⟩, ?_, ?_⟩
  · rw [List.take_add_one, hline, ← hbefore, List.append_assoc]
    rfl
  · rw [List.forall_mem_append, List.forall_mem_singleton]
    exact ⟨hall, hwaited⟩
  · rw [List.filterMap_append]
    cases hd : decorator? line <;> simp [hd]

end Gathered

/-- Each declaration has the decorators of a stretch of lines directly above it. -/
theorem gathered_itemsFrom {t : Template} (hcode : t.code.length = t.raw.length)
    {skip start next : Nat} {pending : List (String × String)} {lines : List String} {m : Member}
    (hlines : t.raw.drop start = lines) (hnext : start + skip = next)
    (hpending : Gathered t.raw next pending)
    (hm : m ∈ membersIn (itemsFrom t skip start pending lines)) :
    Gathered t.raw m.start m.decorators := by
  induction lines generalizing skip start next pending with
  | nil => cases hm
  | cons line rest ih =>
    have hline := getElem?_of_drop hlines
    have hrest := drop_succ_of_drop hlines
    unfold itemsFrom at hm
    split at hm
    · exact ih hrest (by omega) hpending hm
    · obtain rfl : start = next := by omega
      simp only [membersIn_append, membersIn_scopes, List.nil_append] at hm
      split at hm
      · next d hd =>
        have hfound : decorator? line = some (d.group 1, d.group 2) := by
          rw [decorator?, hd, Option.map_some]
        have hstep := hpending.step hline (.inl (by rw [hfound, Option.isSome_some]))
        rw [hfound] at hstep
        exact ih hrest rfl hstep hm
      · next hnone =>
        split at hm
        · next shape symbol hdeclared =>
          -- the lines of the declaration are skipped with nothing gathered
          obtain ⟨hle, -⟩ := spanEnd_bounds hcode (List.getElem?_eq_some_iff.mp hline).1
          rcases List.mem_cons.mp hm with rfl | hm
          · exact hpending
          · exact ih hrest (by omega) (Gathered.nil t.raw (spanEnd t start + 1)) hm
        · split at hm
          · next hkeeps =>
            have hstep := hpending.step hline (.inr (Bool.or_eq_true_iff.mp hkeeps))
            rw [decorator?, hnone, Option.map_none, Option.toList_none, List.append_nil] at hstep
            exact ih hrest rfl hstep hm
          · exact ih hrest rfl (Gathered.nil t.raw (start + 1)) hm

/-- A line above the line with an index is a decorator that marks the declaration there as secure;
the lines between them are waited over. -/
structure Secures (lines : List String) (n : Nat) (mark : String) (between : List String) : Prop where
  above : mark :: between <:+ lines.take n
  marks : ∃ arguments, decorator? mark = some ("secure", arguments)
  waits : ∀ line ∈ between, WaitedOver line

/-- A secure decorator of a declaration stands above it. -/
theorem exists_secures {t : Template} (hcode : t.code.length = t.raw.length) {m : Member}
    (hm : m ∈ members t) (hsecure : ∃ d ∈ m.decorators, d.1 = "secure") :
    ∃ mark between, Secures t.raw m.start mark between := by
  obtain ⟨above, hsuffix, hwaits, hfound⟩ :=
    gathered_itemsFrom hcode List.drop_zero rfl (Gathered.nil t.raw 0) hm
  obtain ⟨⟨_, arguments⟩, hd, rfl⟩ := hsecure
  rw [hfound] at hd
  obtain ⟨mark, hmark, hread⟩ := List.mem_filterMap.mp hd
  obtain ⟨before, between, rfl⟩ := List.append_of_mem hmark
  refine ⟨mark, between, (List.suffix_append before _).trans hsuffix, ⟨arguments, hread⟩, ?_⟩
  intro line hline
  exact hwaits line (List.mem_append_right _ (List.mem_cons_of_mem _ hline))

/-! ## The elements of a template -/

/-- Only the head of a resource adds tags. -/
theorem tags_addHead {m : Member} (hshape : m.shape ≠ .resource) (head : Option Match)
    (d : Declaration) : (addHead m head d).tags = d.tags := by
  unfold addHead
  split
  · next h => exact absurd h hshape
  · rfl
  · rfl

/-- The tag comes from a decorator; a resource, which has its type for a tag, is no property. -/
theorem exists_of_mem_tags_declaration {t : Template} {m : Member}
    (hkind : (declaration t m).kind = .property) (htag : "secure" ∈ (declaration t m).tags) :
    ∃ d ∈ m.decorators, d.1 = "secure" := by
  have hshape : m.shape ≠ .resource := by
    intro hresource
    rw [show (declaration t m).kind = m.shape.kind from
      congrArg Outline.kind (outline_declaration t m), hresource] at hkind
    cases hkind
  unfold declaration at htag
  dsimp only at htag
  rw [tags_addHead hshape] at htag
  split at htag
  · next hany => simpa using hany
  · cases hm : m.shape <;> simp [hm, Shape.keyword] at htag

theorem additive_memberFacts (t : Template) (symbols : List String) (m : Member) :
    ∀ f ∈ memberFacts t symbols m, f.Additive := by
  have hhead : ∀ f ∈ headFacts t m, f.Additive := by
    unfold headFacts
    split
    · dsimp only
      split <;> simp
    · dsimp only
      split <;> simp
    · simp
    · simp
  simp only [memberFacts, List.cons_append, List.forall_mem_cons, List.forall_mem_append,
    List.forall_mem_map]
  exact ⟨trivial, ⟨⟨fun _ _ => trivial, hhead⟩, fun _ _ => trivial⟩, fun _ _ => trivial⟩

theorem declared_memberFacts (place : Place) (t : Template) (symbols : List String) (m : Member) :
    declared place (memberFacts t symbols m) =
      [(declaration t m).toElement place.path place.context] := by
  have hquiet : AllQuiet (memberFacts t symbols m).tail := by
    simp only [memberFacts, List.cons_append, List.tail_cons]
    simp
  exact declared_declare place hquiet

/-- The elements of a template are the file and its declarations. -/
theorem exists_elements_survey (settings : Settings) (fs : FileSystem) {source : Source}
    (hlive : source.cancelled = false) :
    ∃ file, file.kind = .file ∧ (survey settings fs source).elements =
      file :: (members (.ofText source.path source.content)).map fun m =>
        (declaration (.ofText source.path source.content) m).toElement source.path
          (source.place settings fs).context := by
  let t := Template.ofText source.path source.content
  have hadditive : ∀ f ∈ facts t, f.Additive := by
    intro f hf
    obtain ⟨m, -, hf⟩ := List.mem_flatMap.mp hf
    exact additive_memberFacts t _ m f hf
  have hdeclared : declared (source.place settings fs) (facts t) = (members t).map fun m =>
      (declaration t m).toElement source.path (source.place settings fs).context := by
    simp only [facts, declared_flatMap, declared_memberFacts]
    exact List.map_eq_flatMap.symm
  simp only [survey, hlive, Bool.false_eq_true, if_false]
  rw [Report.elements_detect, Report.elements_recordAll _ _ hadditive, hdeclared]
  exact ⟨_, Declaration.kind_noteText? _ _ _, rfl⟩

/-! ## Parameters that are reported -/

open Detect.Bicep

/-- A parameter on a line reads like a secret. -/
def ReadsSecret (text : String) (line : Nat) : Prop :=
  Text.Occurs "param " text ∧ ∃ m ∈ secretParameter.findAll text, m.line text = line

/-- Among the lines above the line with an index, those directly above that begin with the sign of a
decorator, one spells out that the declaration there is secure. -/
def SpelledAbove (lines : List String) (n : Nat) : Prop :=
  ∃ mark between, mark :: between <:+ lines.take n ∧ Text.Occurs "@secure()" mark ∧
    ∀ line ∈ mark :: between, Text.startsWith "@" (Text.trimStart line)

/-- Looking upwards as long as a condition holds. -/
theorem any_takeWhile_reverse_iff {α : Type} {p q : α → Bool} {xs : List α} :
    (xs.reverse.takeWhile p).any q = true ↔
      ∃ x rest, x :: rest <:+ xs ∧ q x = true ∧ ∀ y ∈ x :: rest, p y = true := by
  constructor
  · intro h
    obtain ⟨x, hx, hq⟩ := List.any_eq_true.mp h
    obtain ⟨before, after, hsplit⟩ := List.append_of_mem hx
    have hall : ∀ y ∈ x :: before.reverse, p y = true := by
      intro y hy
      apply List.mem_takeWhile_imp (l := xs.reverse)
      rw [hsplit]
      simp only [List.mem_cons, List.mem_reverse] at hy
      rcases hy with rfl | hy <;> simp [*]
    refine ⟨x, before.reverse, ?_, hq, hall⟩
    have hprefix : before ++ [x] <+: xs.reverse := by
      refine List.IsPrefix.trans ⟨after, ?_⟩ (List.takeWhile_prefix p)
      rw [hsplit, List.append_assoc]
      rfl
    simpa using List.reverse_suffix.mpr hprefix
  · rintro ⟨x, rest, ⟨before, rfl⟩, hq, hall⟩
    refine List.any_eq_true.mpr ⟨x, ?_, hq⟩
    rw [List.reverse_append,
      List.takeWhile_append_of_pos fun y hy => hall y (List.mem_reverse.mp hy)]
    simp

theorem isSecured_iff (scene : Scene) (n : Nat) :
    isSecured scene (n + 1) = true ↔ SpelledAbove scene.lines n := by
  simp only [SpelledAbove, ← Text.contains_iff_occurs]
  exact any_takeWhile_reverse_iff

/-- The rule reports the lines that read like a secret with nothing spelled out above them. -/
theorem exists_mem_findings_iff (scene : Scene) (n : Nat) :
    (∃ f ∈ insecureParameters.findings scene, f.lineNumber = n + 1) ↔
      ReadsSecret scene.source (n + 1) ∧ ¬ SpelledAbove scene.lines n := by
  have hadmits : insecureParameters.admits scene = true ↔ Text.Occurs "param " scene.source := by
    rw [← Text.contains_iff_occurs]
    simp [Rule.admits, insecureParameters, Scene.mentionsAny, Scene.mentions]
  rw [← isSecured_iff]
  unfold Rule.findings
  split
  · next h =>
    simp only [ReadsSecret, hadmits.mp h, true_and, Rule.unguarded]
    constructor
    · rintro ⟨f, hf, hline⟩
      obtain ⟨hit, hhit, rfl⟩ := List.mem_map.mp hf
      obtain ⟨entry, hentry, rfl⟩ := List.mem_map.mp hhit
      obtain ⟨hfound, hloose⟩ := List.mem_filter.mp hentry
      obtain ⟨m, hm, rfl⟩ := List.mem_map.mp hfound
      refine ⟨⟨m, hm, hline⟩, ?_⟩
      rw [← show m.line scene.source = n + 1 from hline]
      simpa using hloose
    · rintro ⟨⟨m, hm, hline⟩, hloose⟩
      refine ⟨_, List.mem_map_of_mem (List.mem_map_of_mem (a := (m.line scene.source, m))
        (List.mem_filter.mpr ⟨List.mem_map_of_mem hm, ?_⟩)), hline⟩
      rw [← hline] at hloose
      simpa using hloose
  · next h => simp [ReadsSecret, mt hadmits.mpr h]

/-- A decorator begins with its sign. -/
theorem startsWith_of_decorator? {line : String} (h : (decorator? line).isSome) :
    Text.startsWith "@" (Text.trimStart line) = true := by
  rw [decorator?, Option.isSome_map] at h
  obtain ⟨m, hm⟩ := Option.isSome_iff_exists.mp h
  have hsign : "@".toList <+: (Text.trim line).toList := (Regex.prefix_of_find? hm).1
  refine List.isPrefixOf_iff_prefix.mpr (hsign.trans ?_)
  rw [Text.trim, Text.trimWhere, Text.trimEndWhere, String.toList_ofList, Text.dropEndWhile,
    ← List.reverse_suffix, List.reverse_reverse]
  exact List.dropWhile_suffix _

/-- A decorator that is spelled out is seen if only decorators stand below it. -/
theorem Secures.spelledAbove {lines : List String} {n : Nat} {mark : String} {between : List String}
    (h : Secures lines n mark between) (hspelled : Text.Occurs "@secure()" mark)
    (hdecorators : ∀ line ∈ between, (decorator? line).isSome) : SpelledAbove lines n := by
  obtain ⟨arguments, hmark⟩ := h.marks
  refine ⟨mark, between, h.above, hspelled, List.forall_mem_cons.mpr ⟨?_, ?_⟩⟩
  · exact startsWith_of_decorator? (by rw [hmark, Option.isSome_some])
  · intro line hline
    exact startsWith_of_decorator? (hdecorators line hline)

section Survey

variable (settings : Settings) (fs : FileSystem) (source : Source)

/-- What is reported: lines that read like a secret with nothing spelled out above them. -/
theorem exists_reported_iff (hlive : source.cancelled = false) (n : Nat) :
    (∃ f ∈ (survey settings fs source).findingsNamed "Bicep_SecretParameterNotSecure",
        f.lineNumber = n + 1) ↔
      isDisabled settings.detectors.disabled "Bicep_SecretParameterNotSecure" = false ∧
        ReadsSecret source.content (n + 1) ∧ ¬ SpelledAbove (Text.lines source.content) n := by
  have hmem {r : Report} {scene : Scene} {f : Finding} (hr : r.findings = []) :
      f ∈ (r.detect settings.detectors bank scene).findingsNamed "Bicep_SecretParameterNotSecure" ↔
        isDisabled settings.detectors.disabled "Bicep_SecretParameterNotSecure" = false ∧
          f ∈ insecureParameters.findings { scene with margin := settings.detectors.margin } := by
    unfold bank
    exact Report.mem_findingsNamed_detect hr (by decide) (List.mem_cons_of_mem _ List.mem_cons_self)
  simp only [survey, hlive, Bool.false_eq_true, if_false]
  simp only [hmem (((Report.undetected_opening _ _ _).updateFile _).recordAll _ _).findings,
    and_assoc, exists_and_left]
  exact and_congr_right fun _ => exists_mem_findings_iff _ n

/-- A parameter that is tagged as secure has a secure decorator above it, with nothing but decorators,
blank lines and comments in between. It is reported all the same just if it reads like a secret and no
line of those directly above that begin with the sign of a decorator spells the decorator out. So it
is not reported when its decorator is spelled out and only decorators stand between the two. -/
theorem secure_reported_iff (hlive : source.cancelled = false) {e : Element} {n : Nat}
    (he : e ∈ (survey settings fs source).elements) (hkind : e.kind = .property)
    (hsecure : "secure" ∈ e.tags) (hline : e.lineNumber = n + 1) :
    (∃ mark between, Secures (Text.lines source.content) n mark between) ∧
      ((∃ f ∈ (survey settings fs source).findingsNamed "Bicep_SecretParameterNotSecure",
          f.lineNumber = e.lineNumber) ↔
        isDisabled settings.detectors.disabled "Bicep_SecretParameterNotSecure" = false ∧
          ReadsSecret source.content e.lineNumber ∧
          ¬ SpelledAbove (Text.lines source.content) n) ∧
      ∀ mark between, Secures (Text.lines source.content) n mark between →
        Text.Occurs "@secure()" mark → (∀ line ∈ between, (decorator? line).isSome) →
        ∀ f ∈ (survey settings fs source).findingsNamed "Bicep_SecretParameterNotSecure",
          f.lineNumber ≠ e.lineNumber := by
  have hreported := exists_reported_iff settings fs source hlive n
  rw [hline]
  refine ⟨?_, hreported, ?_⟩
  · obtain ⟨file, hfile, helements⟩ := exists_elements_survey settings fs hlive
    rw [helements] at he
    rcases List.mem_cons.mp he with rfl | he
    · rw [hfile] at hkind
      cases hkind
    · obtain ⟨m, hm, rfl⟩ := List.mem_map.mp he
      have hcode : (Template.ofText source.path source.content).code.length =
          (Template.ofText source.path source.content).raw.length := by simp [Template.ofText]
      have hstart : m.start = n := by
        have hfirst : (declaration (.ofText source.path source.content) m).lineNumber = m.start + 1 :=
          congrArg Outline.firstLine (outline_declaration _ m)
        exact Nat.succ.inj (hfirst.symm.trans hline)
      rw [← hstart]
      exact exists_secures hcode hm (exists_of_mem_tags_declaration hkind hsecure)
  · intro mark between hsecures hspelled hdecorators f hf hfline
    obtain ⟨-, -, hloose⟩ := hreported.mp ⟨f, hf, hfline⟩
    exact hloose (hsecures.spelledAbove hspelled hdecorators)

end Survey

/-- A template in which a description stands between the decorator and its parameter. -/
def describedSource : Source where
  path := "main.bicep"
  content := "@secure()\n@description('Key of the vault')\nparam apiKey string"

/-- The parameter is tagged as secure and not reported. -/
theorem secure_unreported :
    ∃ e ∈ (survey {} {} describedSource).elements, e.kind = .property ∧ "secure" ∈ e.tags ∧
      e.lineNumber = 3 ∧
      ∀ f ∈ (survey {} {} describedSource).findingsNamed "Bicep_SecretParameterNotSecure",
        f.lineNumber ≠ e.lineNumber := by
  have hread : ((survey {} {} describedSource).elements[1]?).map
      (fun e => (e.kind, e.tags, e.lineNumber)) = some (.property, ["param", "secure"], 3) := by
    decide +kernel
  obtain ⟨e, he, heq⟩ := Option.map_eq_some_iff.mp hread
  simp only [Prod.mk.injEq] at heq
  obtain ⟨hkind, htags, hline⟩ := heq
  have hsecure : "secure" ∈ e.tags := by simp [htags]
  have hmark : Secures (Text.lines describedSource.content) 2 "@secure()"
      ["@description('Key of the vault')"] := by
    refine ⟨⟨[], by decide +kernel⟩, ⟨"", by decide +kernel⟩, ?_⟩
    exact List.forall_mem_singleton.mpr (.inl (by decide +kernel))
  refine ⟨e, List.mem_of_getElem? he, hkind, hsecure, hline, ?_⟩
  exact (secure_reported_iff {} {} describedSource rfl (List.mem_of_getElem? he) hkind hsecure
    hline).2.2 _ _ hmark (List.infix_refl _) (List.forall_mem_singleton.mpr (by decide +kernel))

/-- A template whose secrets are secure by a qualified decorator and by one above a blank line. -/
def qualifiedSource : Source where
  path := "main.bicep"
  content := "@sys.secure()\nparam adminPassword string\n@secure()\n\nparam apiKey string\n"

/-- Both parameters are tagged as secure, and both are reported. -/
theorem secure_reported_anyway :
    (survey {} {} qualifiedSource).elements.tail.map (fun e => (e.name, e.lineNumber, e.tags)) =
        [("adminPassword", 2, ["param", "secure"]), ("apiKey", 5, ["param", "secure"])] ∧
      ((survey {} {} qualifiedSource).findingsNamed "Bicep_SecretParameterNotSecure").map
        (·.lineNumber) = [2, 5] := by
  decide +kernel

end CodeSurvey.Bicep
