import CodeSurvey.Proofs.Text.Pieces
import CodeSurvey.Proofs.VisualBasic.Fields
import CodeSurvey.Proofs.VisualBasic.Skeleton

/-!
# Methods of Visual Basic types

A method has modifiers, a name, parameters and a body. The reader follows the functions without
names in the body, so that their ends are not taken for the end of the method. Whether a method has a
body at all it decides by what the head spells: a parameter with a type, whose name ends like the
word before a function of a library, is enough to mislead it.
-/

namespace CodeSurvey.VisualBasic

open Code (Listing)

/-! ## Parameters -/

/-- A parameter, possibly with a type. -/
structure Parameter where
  name : Name
  type : Option Name

def Parameter.text (p : Parameter) : String :=
  match p.type with
  | none => p.name.text
  | some type => p.name.text ++ " As " ++ type.text

/-- Parameters in parentheses. -/
def parameterText (parameters : List Parameter) : String :=
  "(" ++ String.intercalate ", " (parameters.map Parameter.text) ++ ")"

/-- Words that may stand before a method with a body. -/
def methodModifiers : List String := modifierWords.filter (· != "MustOverride")

/-- The head of a method with a body. -/
structure MethodHead where
  modifiers : List String
  name : Name
  parameters : List Parameter
  known : ∀ w ∈ modifiers, w ∈ methodModifiers

def MethodHead.text (f : MethodHead) : String :=
  String.ofList (spaced f.modifiers) ++ "Sub " ++ f.name.text ++ parameterText f.parameters

/-- A parameter with a type whose name ends in the word before a function of a library. -/
def Parameter.Misleads (p : Parameter) : Prop :=
  p.type.isSome = true ∧ "declare".toList <:+ (Text.lowerAscii p.name.text).toList

instance (p : Parameter) : Decidable p.Misleads := inferInstanceAs (Decidable (_ ∧ _))

section Misleading

/-- A word with a space after it stands at the end of what is before the first space, or behind. -/
theorem infix_spaced_iff {w xs ys : List Char} (hw : ' ' ∉ w) (hxs : ' ' ∉ xs) :
    w ++ [' '] <:+: xs ++ ' ' :: ys ↔ w <:+ xs ∨ w ++ [' '] <:+: ys := by
  constructor
  · intro h
    rcases List.infix_append_iff.mp h with hin | hin | ⟨front, back, heq, hfront, hback⟩
    · exact absurd (hin.subset (List.mem_append_right w (List.mem_singleton_self ' '))) hxs
    · rcases List.infix_cons_iff.mp hin with hstart | hin
      · cases w with
        | nil => exact .inl List.nil_suffix
        | cons c w =>
          obtain rfl := (List.cons_prefix_cons.mp hstart).1
          exact absurd List.mem_cons_self hw
      · exact .inr hin
    · cases back with
      | nil =>
        rw [List.append_nil] at heq
        have hmem : ' ' ∈ front := heq ▸ List.mem_append_right w (List.mem_singleton_self ' ')
        exact absurd (hfront.subset hmem) hxs
      | cons c back =>
        obtain rfl := (List.cons_prefix_cons.mp hback).1
        obtain ⟨rfl, -⟩ := (List.append_cons_inj_of_notMem hw List.not_mem_nil).mp heq
        exact .inl hfront
  · rintro (⟨front, rfl⟩ | h)
    · exact ⟨front, ys, by simp⟩
    · exact h.trans ((List.suffix_cons ' ' ys).trans (List.suffix_append xs _)).isInfix

theorem suffix_of_suffix_append {w xs ys : List Char} {c : Char} (hc : c ∉ w)
    (h : w <:+ xs ++ c :: ys) : w <:+ ys := by
  rcases List.suffix_or_suffix_of_suffix h (List.suffix_append xs (c :: ys)) with hw | hw
  · rcases List.suffix_cons_iff.mp hw with rfl | hw
    · exact absurd List.mem_cons_self hc
    · exact hw
  · exact absurd (hw.subset List.mem_cons_self) hc

/-- The text after a parameter: further ones, then the closing parenthesis. -/
def parameterTail : List Parameter → List Char
  | [] => [')']
  | p :: ps => ',' :: ' ' :: (p.text.toList ++ parameterTail ps)

theorem intercalate_parameters (p : Parameter) (ps : List Parameter) :
    [',', ' '].intercalate ((p :: ps).map fun p => p.text.toList) ++ [')'] =
      p.text.toList ++ parameterTail ps := by
  induction ps generalizing p with
  | nil => simp [parameterTail]
  | cons q ps ih =>
    have hrest := ih q
    rw [List.map_cons] at hrest
    rw [List.map_cons, List.map_cons, List.intercalate_cons_cons, List.append_assoc, hrest,
      parameterTail, List.append_assoc]
    rfl

theorem toList_parameterText_cons (p : Parameter) (ps : List Parameter) :
    (parameterText (p :: ps)).toList = '(' :: (p.text.toList ++ parameterTail ps) := by
  have hcommas : ", ".toList = [',', ' '] := rfl
  rw [parameterText, String.toList_append, String.toList_append, String.toList_intercalate,
    List.map_map, List.append_assoc, hcommas]
  exact congrArg ('(' :: ·) (intercalate_parameters p ps)

/-- The word before a function of a library. -/
def libraryWord : List Char := "declare".toList

theorem space_not_mem_lower {xs : List Char} (h : ' ' ∉ xs) : ' ' ∉ xs.map Char.toLower := by
  intro hmem
  obtain ⟨c, hc, hlower⟩ := List.mem_map.mp hmem
  have hsame : (c == ' ') = true := by
    rw [← Text.toLower_beq (by decide) c, hlower]
    rfl
  exact h (beq_iff_eq.mp hsame ▸ hc)

theorem Name.space_not_mem (name : Name) : ' ' ∉ name.text.toList := by
  intro hmem
  exact absurd (name.isName.bare hmem).1 (by decide)

/-- Before the text after a parameter nothing counts that has no space in it. -/
theorem infix_append_parameterTail {xs : List Char} (hxs : ' ' ∉ xs) (ps : List Parameter) :
    libraryWord ++ [' '] <:+: xs ++ (parameterTail ps).map Char.toLower ↔
      libraryWord ++ [' '] <:+: (parameterTail ps).map Char.toLower := by
  obtain ⟨c, rest, htail, hc⟩ : ∃ c rest, (parameterTail ps).map Char.toLower = c :: rest ∧
      c ∉ libraryWord ++ [' '] := by
    cases ps with
    | nil => exact ⟨')', _, rfl, by decide⟩
    | cons p ps => exact ⟨',', _, rfl, by decide⟩
  rw [htail]
  constructor
  · intro h
    rcases Text.infix_or_infix_of_not_mem hc h with hin | hin
    · exact absurd (hin.subset (by decide)) hxs
    · exact hin.trans (List.suffix_cons c rest).isInfix
  · exact fun h => h.trans (List.suffix_append xs _).isInfix

/-- What stands before a parameter counts only if it ends like the word does. -/
theorem infix_parameter_iff {front : List Char} (hspace : ' ' ∉ front)
    (hfront : ∀ xs, libraryWord <:+ front ++ xs → libraryWord <:+ xs) (p : Parameter)
    (ps : List Parameter) :
    libraryWord ++ [' '] <:+: front ++ (p.text.toList ++ parameterTail ps).map Char.toLower ↔
      p.Misleads ∨ libraryWord ++ [' '] <:+: (parameterTail ps).map Char.toLower := by
  have hname : ' ' ∉ front ++ p.name.text.toList.map Char.toLower := by
    rw [List.mem_append, not_or]
    exact ⟨hspace, space_not_mem_lower p.name.space_not_mem⟩
  cases htype : p.type with
  | none =>
    have hsound : ¬ p.Misleads := by simp [Parameter.Misleads, htype]
    rw [Parameter.text, htype, List.map_append, ← List.append_assoc,
      infix_append_parameterTail hname, or_iff_right hsound]
  | some type =>
    have hword : ' ' ∉ libraryWord := by decide
    have hlower : front ++ (p.text.toList ++ parameterTail ps).map Char.toLower =
        (front ++ p.name.text.toList.map Char.toLower) ++ ' ' :: (['a', 's'] ++ ' ' ::
          (type.text.toList.map Char.toLower ++ (parameterTail ps).map Char.toLower)) := by
      simp [Parameter.text, htype]
    have hmisleads : p.Misleads ↔
        libraryWord <:+ front ++ p.name.text.toList.map Char.toLower := by
      simp only [Parameter.Misleads, htype, Option.isSome_some, true_and, Text.lowerAscii,
        String.toList_ofList]
      exact ⟨fun h => h.trans (List.suffix_append _ _), hfront _⟩
    have has : ¬ libraryWord <:+ ['a', 's'] := by decide
    rw [hlower, infix_spaced_iff hword hname, infix_spaced_iff hword (by decide), or_iff_right has,
      infix_append_parameterTail (space_not_mem_lower type.space_not_mem), hmisleads]

theorem infix_parameterTail_iff (ps : List Parameter) :
    libraryWord ++ [' '] <:+: (parameterTail ps).map Char.toLower ↔ ∃ p ∈ ps, p.Misleads := by
  induction ps with
  | nil =>
    have hnone : ¬ libraryWord ++ [' '] <:+: (parameterTail []).map Char.toLower := by decide
    simpa using hnone
  | cons p ps ih =>
    have hcomma : ¬ libraryWord <:+ [','] := by decide
    have hlower : (parameterTail (p :: ps)).map Char.toLower =
        [','] ++ ' ' :: ([] ++ (p.text.toList ++ parameterTail ps).map Char.toLower) := rfl
    rw [hlower, infix_spaced_iff (by decide) (by decide), or_iff_right hcomma,
      infix_parameter_iff List.not_mem_nil (fun _ h => h), ih, List.exists_mem_cons_iff]

theorem infix_parameterText_iff (name : Name) (ps : List Parameter) :
    libraryWord ++ [' '] <:+: (name.text.toList ++ (parameterText ps).toList).map Char.toLower ↔
      ∃ p ∈ ps, p.Misleads := by
  have hname := space_not_mem_lower name.space_not_mem
  cases ps with
  | nil =>
    have hspace : ' ' ∉ (name.text.toList ++ (parameterText []).toList).map Char.toLower := by
      simpa [parameterText] using hname
    exact ⟨fun h => absurd (h.subset (by decide)) hspace, by simp⟩
  | cons p ps =>
    have hlower : (name.text.toList ++ (parameterText (p :: ps)).toList).map Char.toLower =
        (name.text.toList.map Char.toLower ++ ['(']) ++
          (p.text.toList ++ parameterTail ps).map Char.toLower := by
      simp [toList_parameterText_cons]
    rw [hlower, infix_parameter_iff, infix_parameterTail_iff, List.exists_mem_cons_iff]
    · simpa using hname
    · intro xs h
      rw [List.append_assoc] at h
      exact suffix_of_suffix_append (by decide) h

/-- A row of words counts if one of them ends like the word does. -/
theorem infix_spaced_append_iff {ws : List String}
    (hws : ∀ w ∈ ws, ' ' ∉ w.toList.map Char.toLower ∧ ¬ libraryWord <:+ w.toList.map Char.toLower)
    (ys : List Char) :
    libraryWord ++ [' '] <:+: (spaced ws).map Char.toLower ++ ys ↔ libraryWord ++ [' '] <:+: ys := by
  induction ws with
  | nil => rfl
  | cons w ws ih =>
    obtain ⟨⟨hspace, hother⟩, hws⟩ := List.forall_mem_cons.mp hws
    have hlower : (spaced (w :: ws)).map Char.toLower ++ ys =
        w.toList.map Char.toLower ++ ' ' :: ((spaced ws).map Char.toLower ++ ys) := by
      simp [spaced]
    rw [hlower, infix_spaced_iff (by decide) hspace, or_iff_right hother, ih hws]

/-- The head of a method spells the word before a function of a library where a parameter does. -/
theorem contains_declare_iff (f : MethodHead) :
    Text.contains "declare " (Text.lowerAscii f.text) = true ↔ ∃ p ∈ f.parameters, p.Misleads := by
  have hwords : ∀ w ∈ methodModifiers ++ ["Sub"],
      ' ' ∉ w.toList.map Char.toLower ∧ ¬ libraryWord <:+ w.toList.map Char.toLower := by decide
  have hlower : (Text.lowerAscii f.text).toList =
      (spaced (f.modifiers ++ ["Sub"])).map Char.toLower ++
        (f.name.text.toList ++ (parameterText f.parameters).toList).map Char.toLower := by
    simp [Text.lowerAscii, MethodHead.text, spaced_append, spaced]
  have hword : "declare ".toList = libraryWord ++ [' '] := rfl
  rw [Text.contains_iff_occurs, Text.Occurs, hword, hlower, infix_spaced_append_iff,
    infix_parameterText_iff]
  intro w hw
  apply hwords
  rcases List.mem_append.mp hw with hw | hw
  · exact List.mem_append_left _ (f.known w hw)
  · exact List.mem_append_right _ hw

/-- What has no space in it and is in no word of a row is not in the row. -/
theorem not_infix_spaced {v : List Char} (hv : ' ' ∉ v) (hne : v ≠ []) {ws : List String}
    (hws : ∀ w ∈ ws, ¬ v <:+: w.toList.map Char.toLower) :
    ¬ v <:+: (spaced ws).map Char.toLower := by
  induction ws with
  | nil => exact fun h => hne (List.infix_nil.mp h)
  | cons w ws ih =>
    obtain ⟨hw, hws⟩ := List.forall_mem_cons.mp hws
    have hlower : (spaced (w :: ws)).map Char.toLower =
        w.toList.map Char.toLower ++ ' ' :: (spaced ws).map Char.toLower := by
      simp [spaced]
    intro h
    rw [hlower] at h
    rcases Text.infix_or_infix_of_not_mem hv h with hin | hin
    · exact hw hin
    · exact ih hws hin

/-- A method with a body has no modifier that rules a body out. -/
theorem contains_mustOverride (f : MethodHead) :
    Text.contains "mustoverride" (Text.lowerAscii (String.ofList (spaced f.modifiers))) = false := by
  have hwords : ∀ w ∈ methodModifiers, ¬ "mustoverride".toList <:+: w.toList.map Char.toLower := by
    decide
  have hlower : (Text.lowerAscii (String.ofList (spaced f.modifiers))).toList =
      (spaced f.modifiers).map Char.toLower := by
    simp [Text.lowerAscii]
  rw [← Bool.not_eq_true, Text.contains_iff_occurs, Text.Occurs, hlower]
  exact not_infix_spaced (by decide) (by decide) fun w hw => hwords w (f.known w hw)

end Misleading

/-! ## Heads of methods -/

section Heads

theorem Name.unmarked (name : Name) : Unmarked name.text.toList :=
  .of_bare fun _ hc => name.isName.bare hc

theorem Parameter.unmarked_text (p : Parameter) : Unmarked p.text.toList := by
  unfold text
  split
  · exact p.name.unmarked
  · next type _ =>
    simp only [String.toList_append, unmarked_append]
    exact ⟨⟨p.name.unmarked, .of_all (by decide)⟩, type.unmarked⟩

theorem unmarked_parameterTail (ps : List Parameter) : Unmarked (parameterTail ps) := by
  induction ps with
  | nil => exact List.forall_mem_singleton.mpr (by decide)
  | cons p ps ih =>
    rw [parameterTail, unmarked_cons, unmarked_cons, unmarked_append]
    exact ⟨by decide, by decide, p.unmarked_text, ih⟩

theorem unmarked_parameterText (ps : List Parameter) : Unmarked (parameterText ps).toList := by
  cases ps with
  | nil => exact .of_all (by decide)
  | cons p ps =>
    rw [toList_parameterText_cons, unmarked_cons, unmarked_append]
    exact ⟨by decide, p.unmarked_text, unmarked_parameterTail ps⟩

/-- Parameters begin and end with a parenthesis. -/
theorem exists_parameterText (ps : List Parameter) :
    ∃ inner, (parameterText ps).toList = '(' :: (inner ++ [')']) := by
  refine ⟨(String.intercalate ", " (ps.map Parameter.text)).toList, ?_⟩
  simp [parameterText]

theorem last_parameterText (xs : List Char) (ps : List Parameter) :
    ∀ c ∈ (xs ++ (parameterText ps).toList).getLast?, Text.isBlank c = false := by
  obtain ⟨inner, hinner⟩ := exists_parameterText ps
  intro c hc
  rw [hinner, ← List.cons_append, ← List.append_assoc, List.getLast?_concat] at hc
  cases hc
  rfl

namespace MethodHead

variable (f : MethodHead)

theorem mem_modifierWords : ∀ w ∈ f.modifiers, w ∈ modifierWords :=
  fun w hw => (List.mem_filter.mp (f.known w hw)).1

theorem toList_text : f.text.toList = spaced f.modifiers ++ (MemberWord.subWord.text.toList ++
    ([' '] ++ (f.name.text.toList ++ (parameterText f.parameters).toList))) := by
  simp [text, MemberWord.text]

theorem plain_text : Plain f.text := by
  refine Plain.of_unmarked ?_ ?_ ?_
  · rw [toList_text]
    refine head_spaced (fun w hw => isChunk_of_mem_modifierWords (f.mem_modifierWords w hw)) ?_
    rintro c ⟨⟩
    rfl
  · rw [toList_text, ← List.append_assoc, ← List.append_assoc, ← List.append_assoc]
    exact last_parameterText _ f.parameters
  · have hwords : ∀ w ∈ modifierWords,
        w.toList.all (fun c => decide (c ∉ ['"', '\'', ':', '\n'])) = true := by decide
    rw [toList_text]
    simp only [unmarked_append]
    exact ⟨unmarked_spaced fun w hw => .of_all (hwords w (f.mem_modifierWords w hw)),
      .of_all (by decide), .of_all (by decide), f.name.unmarked, unmarked_parameterText f.parameters⟩

theorem statementStep_text {t : Document} {s : State} {line : Nat} (hs : s.Outside) :
    ∃ rest, statementStep t s line f.text =
      methodStep t s f.name.text (String.ofList (spaced f.modifiers)) rest line := by
  refine statementStep_member .subWord f.mem_modifierWords f.name.isName f.toList_text ?_ hs
  obtain ⟨inner, hinner⟩ := exists_parameterText f.parameters
  rw [hinner]
  rintro c ⟨⟩
  decide

end MethodHead

end Heads

/-! ## Bodies -/

/-- The heads of declarations that may have a block. -/
def blockHeads : List Regex := [namespaceHead, typeHead, methodHead, propertyHead]

/-- A statement that ends no block and begins no declaration that may have one. -/
def Tame (statement : String) : Prop :=
  blockEnd.find? statement = none ∧
    ∀ head ∈ blockHeads, head.find? (takeAttributes statement.length statement).2 = none

instance (statement : String) : Decidable (Tame statement) := inferInstanceAs (Decidable (_ ∧ _))

/-- A line of a body, with the number of functions without a name that it opens. -/
structure InnerLine (functions : Nat) where
  text : String
  tame : ∀ statement ∈ statementsOn text, Tame statement
  opens : (statementsOn text).countP openLambda.isMatch = functions

/-- The lines of a body. A function without a name begins on a line that opens it and has an end of
its own. -/
inductive Body where
  | done
  | line (l : InnerLine 0) (rest : Body)
  | function (l : InnerLine 1) (word : MemberWord) (foot : Margin) (inner rest : Body)

namespace Body

def lines : Body → List String
  | done => []
  | line l rest => l.text :: rest.lines
  | function l word foot inner rest =>
    l.text :: (inner.lines ++ (foot.text ++ ("End " ++ word.text)) :: rest.lines)

/-- The number of lines before the first end, or of all lines if there is none. -/
def quiet : Body → Nat
  | done => 0
  | line _ rest => rest.quiet + 1
  | function _ _ _ inner _ => inner.quiet + 1

theorem quiet_le (body : Body) : body.quiet ≤ body.lines.length := by
  induction body with
  | done => exact le_rfl
  | line l rest ih => exact Nat.succ_le_succ ih
  | function l word foot inner rest ihInner ihRest =>
    simp only [quiet, lines, List.length_cons, List.length_append]
    omega

/-- Up to the first end, with the end of the whole for the last one, a body is tame. -/
theorem exists_foot (body : Body) (foot : Margin) (word : MemberWord) :
    ∃ (before : List String) (foot' : Margin) (word' : MemberWord) (after : List String),
      body.lines ++ [foot.text ++ ("End " ++ word.text)] =
          before ++ (foot'.text ++ ("End " ++ word'.text)) :: after ∧
        before.length = body.quiet ∧
        ∀ l ∈ before, ∀ statement ∈ statementsOn l, Tame statement := by
  induction body generalizing foot word with
  | done => exact ⟨[], foot, word, [], rfl, rfl, List.forall_mem_nil _⟩
  | line l rest ih =>
    obtain ⟨before, foot', word', after, hlines, hlength, htame⟩ := ih foot word
    refine ⟨l.text :: before, foot', word', after, ?_, congrArg (· + 1) hlength,
      List.forall_mem_cons.mpr ⟨l.tame, htame⟩⟩
    rw [lines, List.cons_append, hlines, List.cons_append]
  | function l w f inner rest ihInner ihRest =>
    obtain ⟨before, foot', word', after, hlines, hlength, htame⟩ := ihInner f w
    refine ⟨l.text :: before, foot', word',
      after ++ (rest.lines ++ [foot.text ++ ("End " ++ word.text)]), ?_, congrArg (· + 1) hlength,
      List.forall_mem_cons.mpr ⟨l.tame, htame⟩⟩
    have hwhole : (function l w f inner rest).lines ++ [foot.text ++ ("End " ++ word.text)] =
        l.text :: ((inner.lines ++ [f.text ++ ("End " ++ w.text)]) ++
          (rest.lines ++ [foot.text ++ ("End " ++ word.text)])) := by
      simp [lines]
    rw [hwhole, hlines, List.append_assoc]
    rfl

end Body

/-- The state with more functions without names open. -/
def State.deeper (s : State) (functions : Nat) : State :=
  { s with lambdas := s.lambdas + functions }

@[simp] theorem State.deeper_zero (s : State) : s.deeper 0 = s := rfl

theorem State.deeper_add (s : State) (m n : Nat) : (s.deeper m).deeper n = s.deeper (m + n) := by
  simp [deeper, Nat.add_assoc]

/-- Reading statements leads to a state and leaves the outlines alone. -/
def Passes (t : Document) (s : State) (stmts : List (Nat × String)) (s' : State) : Prop :=
  ∃ facts, AllQuiet facts ∧ readAll t s stmts = (s', facts)

section Bodies

variable {t : Document} {s s' s'' : State} {xs ys : List (Nat × String)}

theorem Passes.nil (t : Document) (s : State) : Passes t s [] s := ⟨[], AllFacts.nil, rfl⟩

theorem Passes.append (hxs : Passes t s xs s') (hys : Passes t s' ys s'') :
    Passes t s (xs ++ ys) s'' := by
  obtain ⟨facts, hquiet, hread⟩ := hxs
  obtain ⟨more, hquiet', hmore⟩ := hys
  refine ⟨facts ++ more, by simp [hquiet, hquiet'], ?_⟩
  rw [readAll_append, hread]
  dsimp only
  rw [hmore]

theorem Passes.single {line : Nat} {statement : String} {facts : List Fact} (hquiet : AllQuiet facts)
    (h : statementStep t s line statement = (s', facts)) : Passes t s [(line, statement)] s' :=
  ⟨facts, hquiet, by simp [readAll, h]⟩

section Inside

variable {name : String} {start position : Nat} {rest : List Scope}

/-- In a member, a statement that ends no block only opens a function without a name. -/
theorem passes_inside {line : Nat} {statement : String}
    (hscopes : s.scopes = .member name start position :: rest)
    (hend : blockEnd.find? statement = none) :
    Passes t s [(line, statement)] (s.deeper (if openLambda.isMatch statement then 1 else 0)) := by
  by_cases hempty : statement.isEmpty = true
  · have hnone : openLambda.isMatch statement = false := by
      rw [String.isEmpty_iff.mp hempty]
      decide
    exact .single AllFacts.nil (by simp [statementStep, hempty, hnone])
  · refine .single (regular_bodyFacts statement name (line + 1)).quiet ?_
    simp only [statementStep, hempty, hend, hscopes]
    cases openLambda.isMatch statement with
    | true => simp [State.deeper, hscopes]
    | false => simp

theorem passes_all_inside (hscopes : s.scopes = .member name start position :: rest) (line : Nat)
    (stmts : List String) (htame : ∀ statement ∈ stmts, Tame statement) :
    Passes t s (stmts.map (line, ·)) (s.deeper (stmts.countP openLambda.isMatch)) := by
  induction stmts generalizing s with
  | nil => exact .nil t s
  | cons statement stmts ih =>
    obtain ⟨hstatement, hstmts⟩ := List.forall_mem_cons.mp htame
    have hfirst : Passes t s [(line, statement)] _ := passes_inside hscopes hstatement.1
    have hmore := hfirst.append (ih hscopes hstmts)
    rwa [State.deeper_add, Nat.add_comm, ← List.countP_cons] at hmore

/-- The end of a function without a name closes that function. -/
theorem passes_functionEnd (line : Nat) (word : MemberWord) :
    Passes t (s.deeper 1) [(line, "End " ++ word.text)] s := by
  have hfind : ∃ m, blockEnd.find? ("End " ++ word.text) = some m ∧
      ["sub", "function", "property"].contains (Text.lowerAscii (m.group 1)) = true ∧
      ("End " ++ word.text).isEmpty = false := by
    cases word with
    | subWord | functionWord => exact ⟨_, rfl, by decide +kernel⟩
  obtain ⟨m, hm, hmember, hempty⟩ := hfind
  refine .single AllFacts.nil ?_
  simp only [statementStep, hempty, hm, endStep, hmember, State.deeper]
  rfl

/-- In a member, a body leaves the state as it is. -/
theorem passes_body (body : Body) (hscopes : s.scopes = .member name start position :: rest)
    (line : Nat) : Passes t s (statementsFrom line body.lines) s := by
  induction body generalizing s line with
  | done => exact .nil t s
  | line l more ih =>
    have hline := passes_all_inside (t := t) hscopes line _ l.tame
    rw [l.opens, State.deeper_zero] at hline
    exact hline.append (ih hscopes (line + 1))
  | function l word foot inner more ihInner ihMore =>
    have hline := passes_all_inside (t := t) hscopes line _ l.tame
    rw [l.opens] at hline
    rw [Body.lines, statementsFrom_cons, statementsFrom_append, statementsFrom_cons,
      statementsOn_indented foot (plain_foot word.mem_headWords)]
    have hdeeper : (s.deeper 1).scopes = .member name start position :: rest := hscopes
    exact hline.append ((ihInner hdeeper (line + 1)).append
      ((passes_functionEnd _ word).append (ihMore hscopes _)))

end Inside

end Bodies

end CodeSurvey.VisualBasic
