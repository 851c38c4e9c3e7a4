import CodeSurvey.Proofs.Regex.Progress
import CodeSurvey.Proofs.Report.Arrangement

/-!
# The partition of a template into declarations

A template is cut line by line: a line that declares nothing is passed over, and after a declaration
the cut goes on behind the last line of it. So declarations stand one after the other, and no line
that declares something is lost: a declaration starts on it, or it lies inside of an earlier one.
-/

namespace CodeSurvey.Bicep

/-! ## What a line declares -/

/-- A line has the head of a declaration of a shape, with its symbol. -/
def Shape.Declares (shape : Shape) (symbol line : String) : Prop :=
  ∃ m, shape.head.find? (Text.trim line) = some m ∧ m.group 1 = symbol

namespace Shape

variable {shape other : Shape} {line symbol : String} {m : Match}

theorem mem_all (shape : Shape) : shape ∈ all := by cases shape <;> decide

/-- What has the head of a shape begins with the keyword of it. -/
theorem keyword_starts (h : shape.head.find? line = some m) :
    shape.keyword.toList <+: line.toList := by
  cases shape with
  | parameter | binding | resource | nested | output | type => exact (Regex.prefix_of_find? h).1

/-- No keyword begins with another one. -/
theorem eq_of_keyword_starts (h : shape.keyword.toList <+: other.keyword.toList) :
    shape = other := by
  revert h
  cases shape <;> cases other <;> decide

/-- A line has the heads of at most one shape. -/
theorem eq_of_find? {m' : Match} (h : shape.head.find? line = some m)
    (h' : other.head.find? line = some m') : shape = other := by
  rcases List.prefix_or_prefix_of_prefix (keyword_starts h) (keyword_starts h') with hle | hle
  · exact eq_of_keyword_starts hle
  · exact (eq_of_keyword_starts hle).symm

/-- What is declared is read off the head, whatever shapes are tried before. -/
theorem declared?_eq_some_iff :
    declared? (Text.trim line) = some (shape, symbol) ↔ shape.Declares symbol line := by
  have hread {shape : Shape} {symbol : String}
      (h : declared? (Text.trim line) = some (shape, symbol)) : shape.Declares symbol line := by
    obtain ⟨shape', -, hfound⟩ := List.exists_of_findSome?_eq_some h
    obtain ⟨m, hm, heq⟩ := Option.map_eq_some_iff.mp hfound
    cases heq
    exact ⟨m, hm, rfl⟩
  refine ⟨hread, ?_⟩
  rintro ⟨m, hm, rfl⟩
  cases hdeclared : declared? (Text.trim line) with
  | none =>
    have hnone := List.findSome?_eq_none_iff.mp hdeclared shape shape.mem_all
    simp [hm] at hnone
  | some found =>
    obtain ⟨other, symbol⟩ := found
    obtain ⟨m', hm', rfl⟩ := hread hdeclared
    obtain rfl := eq_of_find? hm hm'
    rw [Option.some.inj (hm.symm.trans hm')]

/-- A decorator declares nothing. -/
theorem declared?_of_decorator (h : decorator.find? line = some m) : declared? line = none := by
  refine List.findSome?_eq_none_iff.mpr ?_
  intro shape _
  rw [Option.map_eq_none_iff, Option.eq_none_iff_forall_ne_some]
  intro m' hm'
  have hmark : ¬ ("@".toList <+: shape.keyword.toList ∨ shape.keyword.toList <+: "@".toList) := by
    cases shape <;> decide
  exact hmark (List.prefix_or_prefix_of_prefix (Regex.prefix_of_find? h).1 (keyword_starts hm'))

end Shape

/-! ## The last line of a declaration -/

theorem le_spanEndFrom {last start i : Nat} {depth : Int} {lines : List String}
    (hlast : start ≤ last) (hi : start ≤ i) : start ≤ spanEndFrom last depth lines i := by
  induction lines generalizing depth i with
  | nil => exact hlast
  | cons line rest ih =>
    rw [spanEndFrom]
    split
    · exact hi
    · exact ih (hi.trans (Nat.le_succ i))

theorem spanEndFrom_le {last i : Nat} {depth : Int} {lines : List String}
    (h : i + lines.length = last + 1) : spanEndFrom last depth lines i ≤ last := by
  induction lines generalizing depth i with
  | nil => exact le_rfl
  | cons line rest ih =>
    rw [List.length_cons] at h
    rw [spanEndFrom]
    split
    · omega
    · exact ih (by omega)

/-- A declaration ends on its first line or after it, and not after the last line of all. -/
theorem spanEnd_bounds {t : Template} {start : Nat} (hcode : t.code.length = t.raw.length)
    (h : start < t.raw.length) : start ≤ spanEnd t start ∧ spanEnd t start < t.raw.length := by
  constructor
  · exact le_spanEndFrom (by omega) le_rfl
  · have hle : spanEnd t start ≤ t.raw.length - 1 :=
      spanEndFrom_le (by rw [List.length_drop]; omega)
    omega

/-! ## Cutting a template -/

/-- The declarations into which the lines from an index on are cut. -/
inductive Cut (t : Template) : Nat → List Member → Prop where
  | done {i : Nat} (h : t.raw.length ≤ i) : Cut t i []
  | pass {i : Nat} {line : String} {ms : List Member} (hline : t.raw[i]? = some line)
      (hnone : declared? (Text.trim line) = none) (hrest : Cut t (i + 1) ms) : Cut t i ms
  | take {i : Nat} {line : String} {m : Member} {ms : List Member}
      (hline : t.raw[i]? = some line) (hdeclares : m.shape.Declares m.symbol line)
      (hstart : m.start = i) (hstop : m.stop = spanEnd t i) (hrest : Cut t (m.stop + 1) ms) :
      Cut t i (m :: ms)

def membersIn (items : List Item) : List Member :=
  items.filterMap fun
    | .member m => some m
    | .scope _ => none

@[simp] theorem membersIn_append (items more : List Item) :
    membersIn (items ++ more) = membersIn items ++ membersIn more := List.filterMap_append

@[simp] theorem membersIn_scopes {α : Type} (found : List α) (name : α → String) :
    membersIn (found.map fun x => .scope (name x)) = [] := by
  induction found with
  | nil => rfl
  | cons x rest ih => exact ih

/-- Reading the items of a template cuts it. -/
theorem cut_itemsFrom {t : Template} (hcode : t.code.length = t.raw.length) {skip start next : Nat}
    {pending : List (String × String)} {lines : List String} (hlines : t.raw.drop start = lines)
    (hnext : start + skip = next) :
    Cut t next (membersIn (itemsFrom t skip start pending lines)) := by
  induction lines generalizing skip start next pending with
  | nil =>
    have hend := List.drop_eq_nil_iff.mp hlines
    exact .done (by omega)
  | cons line rest ih =>
    have hline := getElem?_of_drop hlines
    have hrest := drop_succ_of_drop hlines
    unfold itemsFrom
    split
    · exact ih hrest (by omega)
    · obtain rfl : start = next := by omega
      simp only [membersIn_append, membersIn_scopes, List.nil_append]
      split
      · next m hm => exact .pass hline (Shape.declared?_of_decorator hm) (ih hrest rfl)
      · split
        · next shape symbol hdeclared =>
          obtain ⟨hle, -⟩ := spanEnd_bounds hcode (List.getElem?_eq_some_iff.mp hline).1
          exact .take hline (Shape.declared?_eq_some_iff.mp hdeclared) rfl rfl
            (ih hrest (by dsimp only; omega))
        · next hdeclared => exact .pass hline hdeclared (ih hrest rfl)

theorem cut_members {t : Template} (hcode : t.code.length = t.raw.length) : Cut t 0 (members t) :=
  cut_itemsFrom hcode List.drop_zero rfl

namespace Cut

variable {t : Template} {i j : Nat} {m : Member} {ms : List Member}

theorem bounds (hcut : Cut t i ms) (hcode : t.code.length = t.raw.length) (hm : m ∈ ms) :
    i ≤ m.start ∧ m.start ≤ m.stop ∧ m.stop < t.raw.length := by
  induction hcut with
  | done h => cases hm
  | pass hline hnone hrest ih => exact ⟨(Nat.le_succ _).trans (ih hm).1, (ih hm).2⟩
  | @take i line m' ms hline hdeclares hstart hstop hrest ih =>
    obtain ⟨hle, hlt⟩ := spanEnd_bounds hcode (List.getElem?_eq_some_iff.mp hline).1
    rcases List.mem_cons.mp hm with rfl | hm
    · omega
    · have hbounds := ih hm
      omega

/-- Declarations stand one after the other. -/
theorem sorted (hcut : Cut t i ms) (hcode : t.code.length = t.raw.length) :
    ms.Pairwise fun a b => a.stop < b.start := by
  induction hcut with
  | done h => exact List.Pairwise.nil
  | pass hline hnone hrest ih => exact ih
  | take hline hdeclares hstart hstop hrest ih =>
    exact List.pairwise_cons.mpr ⟨fun b hb => (hrest.bounds hcode hb).1, ih⟩

/-- No two declarations start on a line. -/
theorem filter_start_eq (hcut : Cut t i ms) (hcode : t.code.length = t.raw.length) (hm : m ∈ ms) :
    ms.filter (·.start = m.start) = [m] := by
  induction hcut with
  | done h => cases hm
  | pass hline hnone hrest ih => exact ih hm
  | @take i line m' ms hline hdeclares hstart hstop hrest ih =>
    have hle := (spanEnd_bounds hcode (List.getElem?_eq_some_iff.mp hline).1).1
    rcases List.mem_cons.mp hm with rfl | hm
    · rw [List.filter_cons_of_pos (by simp), List.filter_eq_nil_iff.mpr]
      intro b hb
      have hafter := (hrest.bounds hcode hb).1
      simp only [decide_eq_true_eq]
      omega
    · have hafter := (hrest.bounds hcode hm).1
      rw [List.filter_cons_of_neg (by simp only [decide_eq_true_eq]; omega), ih hm]

/-- A declaration starts on a line that declares its symbol. -/
theorem declares (hcut : Cut t i ms) (hm : m ∈ ms) :
    ∃ line, t.raw[m.start]? = some line ∧ m.shape.Declares m.symbol line := by
  induction hcut with
  | done h => cases hm
  | pass hline hnone hrest ih => exact ih hm
  | @take i line m' ms hline hdeclares hstart hstop hrest ih =>
    rcases List.mem_cons.mp hm with rfl | hm
    · exact ⟨line, hstart ▸ hline, hdeclares⟩
    · exact ih hm

/-- A declaration starts on every line that declares something, unless an earlier one runs over it. -/
theorem covers (hcut : Cut t i ms) {shape : Shape} {symbol line : String} (hij : i ≤ j)
    (hline : t.raw[j]? = some line) (hdeclares : shape.Declares symbol line) :
    (∃ m ∈ ms, m.start = j ∧ m.shape = shape ∧ m.symbol = symbol) ∨
      ∃ m ∈ ms, m.start < j ∧ j ≤ m.stop := by
  induction hcut with
  | @done i h =>
    have hlt := (List.getElem?_eq_some_iff.mp hline).1
    omega
  | @pass i line' ms hline' hnone hrest ih =>
    refine ih (Nat.lt_of_le_of_ne hij ?_)
    rintro rfl
    rw [Option.some.inj (hline'.symm.trans hline),
      Shape.declared?_eq_some_iff.mpr hdeclares] at hnone
    cases hnone
  | @take i line' m ms hline' hdeclares' hstart hstop hrest ih =>
    rcases Nat.eq_or_lt_of_le hij with rfl | hlt
    · obtain rfl := Option.some.inj (hline'.symm.trans hline)
      have hsame := (Shape.declared?_eq_some_iff.mpr hdeclares').symm.trans
        (Shape.declared?_eq_some_iff.mpr hdeclares)
      cases hsame
      exact .inl ⟨m, List.mem_cons_self, hstart, rfl, rfl⟩
    · rcases Nat.lt_or_ge m.stop j with hafter | hinside
      · rcases ih hafter with ⟨b, hb, hfound⟩ | ⟨b, hb, hfound⟩
        · exact .inl ⟨b, List.mem_cons_of_mem m hb, hfound⟩
        · exact .inr ⟨b, List.mem_cons_of_mem m hb, hfound⟩
      · exact .inr ⟨m, List.mem_cons_self, hstart ▸ hlt, hinside⟩

end Cut

/-! ## The elements of a template -/

def outlineOf (t : Template) (m : Member) : Outline :=
  ⟨m.shape.kind, m.symbol, m.start + 1, some (.nat (m.stop + 1)),
    Text.joinLines ((t.raw.drop m.start).take (m.stop + 1 - m.start)), none⟩

theorem last_outlineOf (t : Template) (m : Member) : (outlineOf t m).last = m.stop + 1 := by
  simp [Outline.last, outlineOf, Json.nat]

theorem spans_outlineOf {t : Template} {m : Member} (hle : m.start ≤ m.stop)
    (hlt : m.stop < t.raw.length) : (outlineOf t m).Spans t.raw (outlineOf t m).last := by
  rw [last_outlineOf]
  refine ⟨rfl, Nat.le_add_left _ _, Nat.succ_le_succ hle, hlt, ?_⟩
  simp only [outlineOf, Nat.add_sub_cancel, Nat.add_sub_add_right]

/-- No two elements start on a line. -/
theorem Cut.filter_firstLine_eq {t : Template} {i : Nat} {m : Member} {ms : List Member}
    (hcut : Cut t i ms) (hcode : t.code.length = t.raw.length) (hm : m ∈ ms) :
    (ms.map (outlineOf t)).filter (·.firstLine = m.start + 1) = [outlineOf t m] := by
  have hstarts : ((fun o : Outline => decide (o.firstLine = m.start + 1)) ∘ outlineOf t) =
      fun a => decide (a.start = m.start) := by
    funext a
    simp [outlineOf]
  rw [List.filter_map, hstarts, hcut.filter_start_eq hcode hm, List.map_singleton]

theorem outline_addHead (m : Member) (head : Option Match) (d : Declaration) :
    (addHead m head d).outline = d.outline := by
  unfold addHead
  split
  · next h _ =>
    have hnotes : ((((d.addTag (h.group 2)).note "resource_type" (.str (h.group 2))).noteText?
        "api_version" (h.group? 3))).outline = d.outline := by
      rw [Declaration.outline_noteText? _ _ (by decide) (by decide),
        Declaration.outline_note _ _ (by decide) (by decide), Declaration.outline_addTag]
    dsimp only
    split
    · rw [Declaration.outline_addTag, hnotes]
    · exact hnotes
  · exact d.outline_addDependency _
  · rfl

theorem outline_declaration (t : Template) (m : Member) :
    (declaration t m).outline = outlineOf t m := by
  unfold declaration
  dsimp only
  rw [outline_addHead]
  split
  · rw [Declaration.outline_addTag]
    rfl
  · rfl

@[simp] theorem allQuiet_headFacts (t : Template) (m : Member) : AllQuiet (headFacts t m) := by
  unfold headFacts
  split
  · dsimp only
    split <;> simp
  · dsimp only
    split <;> simp
  · simp
  · simp

/-- The facts of a declaration state its outline and nothing else. -/
theorem draws_memberFacts (t : Template) (symbols : List String) (m : Member) :
    Draws (memberFacts t symbols m) ∧
      holdings (memberFacts t symbols m) = [⟨t.path, outlineOf t m⟩] := by
  have hquiet : AllQuiet (
      (m.decorators.map fun d => .edge m.symbol d.1 .hasAttribute (m.start + 1)) ++
      headFacts t m ++
      (uses t symbols m).map (fun used => .edge m.symbol used.1 .uses used.2) ++
      (calledNames t symbols m).map fun called => .edge m.symbol called.1 .calls called.2) := by
    simp
  rw [← outline_declaration]
  exact ⟨Draws.declare hquiet, holdings_declare hquiet⟩

theorem draws_facts (t : Template) :
    Draws (facts t) ∧ holdings (facts t) = (members t).map fun m => ⟨t.path, outlineOf t m⟩ := by
  constructor
  · exact Draws.flatMap fun m _ => (draws_memberFacts t _ m).1
  · rw [facts, holdings_flatMap]
    simp only [(draws_memberFacts t _ _).2]
    exact List.map_eq_flatMap.symm

section Survey

variable (settings : Settings) (fs : FileSystem) (source : Source)

theorem blocks_survey (hlive : source.cancelled = false) :
    (survey settings fs source).blocks =
      (members (.ofText source.path source.content)).map
        (outlineOf (.ofText source.path source.content)) := by
  obtain ⟨hdraws, hholdings⟩ := draws_facts (.ofText source.path source.content)
  have hholds : (survey settings fs source).Holds
      ([] ++ holdings (facts (.ofText source.path source.content))) := by
    unfold survey
    dsimp only
    rw [if_neg (by simp [hlive])]
    refine Report.Holds.detect (Report.Holds.recordAll ?_ hdraws (owned_facts _)) _ _ _
    refine (Report.Holds.opening _ _ _).updateFile ?_
    intro d
    exact d.outline_noteText? _ (by decide) (by decide)
  rw [hholds.blocks_eq, hholdings, List.nil_append, List.map_map]
  rfl

/-- Declarations partition a template, whatever its brackets are. Each element other than the file
covers lines of the template, holds their text and is what the first of them declares; it ends before
the next element starts. Of every line that declares something, exactly one element starts on it, with
the symbol that it declares, or the line lies inside of an earlier element. -/
theorem blocks_partition (hlive : source.cancelled = false) :
    (∀ o ∈ (survey settings fs source).blocks, o.Spans (Text.lines source.content) o.last) ∧
      (survey settings fs source).blocks.Pairwise (fun o p => o.last < p.firstLine) ∧
      (∀ o ∈ (survey settings fs source).blocks, ∃ line, ∃ shape : Shape,
        (Text.lines source.content)[o.firstLine - 1]? = some line ∧
          shape.Declares o.name line ∧ o.kind = shape.kind) ∧
      ∀ i line, (Text.lines source.content)[i]? = some line →
        ∀ (shape : Shape) (symbol : String), shape.Declares symbol line →
          (∃ o, (survey settings fs source).blocks.filter (·.firstLine = i + 1) = [o] ∧
            o.name = symbol ∧ o.kind = shape.kind) ∨
          ∃ o ∈ (survey settings fs source).blocks, o.firstLine < i + 1 ∧ i + 1 ≤ o.last := by
  have hcode : (Template.ofText source.path source.content).code.length =
      (Template.ofText source.path source.content).raw.length := by simp [Template.ofText]
  have hcut := cut_members hcode
  have hsorted := hcut.sorted hcode
  rw [blocks_survey settings fs source hlive]
  refine ⟨?_, ?_, ?_, ?_⟩
  · rw [List.forall_mem_map]
    intro m hm
    obtain ⟨-, hle, hlt⟩ := hcut.bounds hcode hm
    exact spans_outlineOf hle hlt
  · rw [List.pairwise_map]
    refine hsorted.imp ?_
    intro a b hab
    rw [last_outlineOf]
    exact Nat.succ_lt_succ hab
  · rw [List.forall_mem_map]
    intro m hm
    obtain ⟨line, hline, hdeclares⟩ := hcut.declares hm
    exact ⟨line, m.shape, hline, hdeclares, rfl⟩
  · intro i line hline shape symbol hdeclares
    rcases hcut.covers (Nat.zero_le i) hline hdeclares with ⟨m, hm, rfl, rfl, rfl⟩ | ⟨m, hm, hlt, hle⟩
    · exact .inl ⟨_, hcut.filter_firstLine_eq hcode hm, rfl, rfl⟩
    · refine .inr ⟨_, List.mem_map_of_mem hm, Nat.succ_lt_succ hlt, ?_⟩
      rw [last_outlineOf]
      exact Nat.succ_le_succ hle

end Survey

/-- A template in which a resource leaves a bracket open and so runs over the variable after it. -/
def openedSource : Source :=
  { path := "main.bicep",
    content := "@secure()\nparam key string\nresource r 'T@1' = \x7b\n  tags: [\n\x7d\nvar x = 1" }

theorem blocks_openedSource :
    (survey {} {} openedSource).blocks.map (fun o => (o.name, o.firstLine, o.last)) =
        [("key", 2, 2), ("r", 3, 6)] ∧
      ((∃ o, (survey {} {} openedSource).blocks.filter (·.firstLine = 6) = [o] ∧ o.name = "x" ∧
          o.kind = .property) ∨
        ∃ o ∈ (survey {} {} openedSource).blocks, o.firstLine < 6 ∧ 6 ≤ o.last) := by
  refine ⟨by decide +kernel, ?_⟩
  refine (blocks_partition {} {} openedSource rfl).2.2.2 5 "var x = 1" (by decide +kernel)
    .binding "x" ?_
  exact Shape.declared?_eq_some_iff.mp (by decide +kernel)

end CodeSurvey.Bicep
