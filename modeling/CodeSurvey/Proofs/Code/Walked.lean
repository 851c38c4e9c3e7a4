import CodeSurvey.Frontend.Bicep
import CodeSurvey.Frontend.Dart
import CodeSurvey.Frontend.VisualBasic
import CodeSurvey.Proofs.Code.Literals

/-!
# What walkers see of literals

Visual Basic, Dart and Bicep sources are walked line by line, and braces, brackets and calls are looked
for in the code of the lines. The code of a line is its own code and a part of the line. Of a literal it
has the quotes alone, so that nothing a literal holds is ever counted or called.
-/

namespace CodeSurvey.Code

namespace Marking

variable {m : Marking} {quote : Char} {before inside rest : List Char}

/-- Reading code once more leaves it as it is. -/
theorem read_read (m : Marking) {quote? : Option Char} (h : ∀ q ∈ quote?, q ∈ m.quotes)
    (cs : List Char) : m.read quote? (m.read quote? cs) = m.read quote? cs := by
  have hquotes (c : Char) (hc : (c == '"' || (c == '\'' && m.mark.toList != ['\''])) = true) :
      c ∈ m.quotes := by
    cases m <;> simpa [quotes, mark] using hc
  unfold read
  fun_induction codeChars m.mark.toList quote? cs with
  | case1 | case2 => rfl
  | case3 c q hescape x cs ih => exact ih h
  | case4 c cs q hescape hclose ih =>
    obtain rfl := beq_iff_eq.mp hclose
    exact (read_close (h c rfl) _).trans (congrArg _ (ih (by simp)))
  | case5 c cs q hescape hclose ih => exact ih h
  | case6 => rfl
  | case7 c cs hmark hquote ih =>
    have hc := hquotes c hquote
    exact (read_quote hc _).trans (congrArg _ (ih (by simpa using hc)))
  | case8 c cs hmark hquote ih =>
    -- a comment that begins in the code begins in the text as well
    have hmark' : ¬ m.mark.toList <+: c :: m.read none cs := by
      refine fun hbegins => hmark (List.isPrefixOf_iff_prefix.mpr ?_)
      refine mark_prefix_of_head? hbegins fun x _ hhead => ?_
      rcases m.head?_read cs with hsame | ⟨hnone, -⟩
      · rwa [hsame] at hhead
      · rw [hnone] at hhead
        cases hhead
    have hc : c ∉ m.quotes := by cases m <;> simpa [quotes, mark] using hquote
    exact (read_char hc hmark').trans (congrArg _ (ih h))

theorem inside_of_forall (h : ∀ c ∈ inside, c ≠ quote ∧ c ≠ '\\') : m.Inside quote inside := by
  induction inside with
  | nil => exact .nil
  | cons c inside ih =>
    obtain ⟨⟨hquote, hescape⟩, hinside⟩ := List.forall_mem_cons.mp h
    exact .char (fun _ => hescape) hquote (ih hinside)

/-- The code of a line with a closed literal has the quotes of the literal and nothing in between. -/
theorem Outside.read_literal (h : m.Outside before) (hquote : quote ∈ m.quotes)
    (hinside : m.Inside quote inside) (rest : List Char) :
    m.read none (before ++ quote :: (inside ++ quote :: rest)) =
      m.read none before ++ quote :: quote :: m.read none rest := by
  rw [h.read_append, Marking.read_literal hquote hinside]
  rintro _ ⟨⟩
  cases m with
  | slashes =>
    rw [mem_quotes_slashes] at hquote
    rcases hquote with rfl | rfl <;> decide
  | apostrophe =>
    obtain rfl : quote = '"' := by simpa [quotes] using hquote
    decide

/-! ## Lines and texts -/

/-- Two lines that differ in the inside of one closed literal. -/
inductive Differ (m : Marking) : String → String → Prop
  | mk {quote : Char} {before rest inside inside' : List Char} (h : m.Outside before)
      (hquote : quote ∈ m.quotes) (hinside : ∀ c ∈ inside, c ≠ quote ∧ c ≠ '\\')
      (hinside' : ∀ c ∈ inside', c ≠ quote ∧ c ≠ '\\') :
      Differ m (.ofList (before ++ quote :: (inside ++ quote :: rest)))
        (.ofList (before ++ quote :: (inside' ++ quote :: rest)))

/-- Two texts whose lines are the same up to the insides of closed literals. -/
def Alike (m : Marking) (text text' : String) : Prop :=
  List.Forall₂ (Relation.ReflTransGen m.Differ) (Text.lines text) (Text.lines text')

theorem codeLine_of_differ {line line' : String} (h : Relation.ReflTransGen m.Differ line line') :
    codeLine m.mark line = codeLine m.mark line' := by
  induction h with
  | refl => rfl
  | tail _ hstep ih =>
    rw [ih]
    obtain ⟨h, hquote, hinside, hinside'⟩ := hstep
    rw [← String.toList_inj, toList_codeLine, toList_codeLine, String.toList_ofList,
      String.toList_ofList, h.read_literal hquote (inside_of_forall hinside),
      h.read_literal hquote (inside_of_forall hinside')]

theorem Alike.map_codeLine {text text' : String} (h : m.Alike text text') :
    (Text.lines text).map (codeLine m.mark) = (Text.lines text').map (codeLine m.mark) := by
  rw [← List.forall₂_eq_eq_eq, List.forall₂_map_left_iff, List.forall₂_map_right_iff]
  exact h.imp fun _ _ => codeLine_of_differ

/-- The walkers of the languages with a mark look at the same in two texts: the statements of Visual
Basic; the ends of blocks and the code of members in Dart; and the ends and the code of declarations in
Bicep. -/
def LooksSame (text text' : String) : Marking → Prop
  | apostrophe =>
    VisualBasic.statements (.ofText "'" text) = VisualBasic.statements (.ofText "'" text')
  | slashes =>
    (∀ shape line stop, Dart.lastLine (.ofText "//" text) shape line stop =
      Dart.lastLine (.ofText "//" text') shape line stop) ∧
    (∀ path member ending, Dart.memberCode ⟨path, .ofText "//" text⟩ member ending =
      Dart.memberCode ⟨path, .ofText "//" text'⟩ member ending) ∧
    (∀ path start, Bicep.spanEnd (.ofText path text) start =
      Bicep.spanEnd (.ofText path text') start) ∧
    ∀ path member, Bicep.bodyLines (.ofText path text) member =
      Bicep.bodyLines (.ofText path text') member

theorem Alike.looksSame {text text' : String} (h : m.Alike text text') : m.LooksSame text text' := by
  have hlines := h.map_codeLine
  have hcode : (Listing.ofText m.mark text).code = (Listing.ofText m.mark text').code := by
    simpa [Listing.ofText, Function.comp_def] using congrArg (List.map Text.trim) hlines
  cases m with
  | apostrophe => exact congrArg (fun code : List String => code.zipIdx.flatMap _) hcode
  | slashes =>
    have hlength : (Text.lines text).length = (Text.lines text').length := List.Forall₂.length_eq h
    simp only [mark] at hlines hcode
    refine ⟨fun shape line stop => ?_, fun path member ending => ?_, fun path start => ?_,
      fun path member => ?_⟩
    · simp only [Dart.lastLine, hcode]
    · simp only [Dart.memberCode, Dart.declarationText, Listing.codeAt, hcode]
    · simp only [Bicep.spanEnd, Bicep.Template.ofText, hlines, hlength]
    · simp only [Bicep.bodyLines, Bicep.Template.ofText, hlines]

/-- The code of a line is its own code and a part of the line. A closed literal leaves its quotes in the
code and nothing of its inside, and what follows is read like a line of its own. So walkers look at the
same in texts that differ in the insides of closed literals. -/
theorem codeLine_blind (m : Marking) :
    (∀ line, codeLine m.mark (codeLine m.mark line) = codeLine m.mark line) ∧
      (∀ line, (codeLine m.mark line).toList.Sublist line.toList) ∧
      (∀ before quote inside rest, m.Outside before → quote ∈ m.quotes →
        (∀ c ∈ inside, c ≠ quote ∧ c ≠ '\\') →
        codeLine m.mark (.ofList (before ++ quote :: (inside ++ quote :: rest))) =
          codeLine m.mark (.ofList before) ++ .ofList [quote, quote] ++
            codeLine m.mark (.ofList rest)) ∧
      ∀ text text', m.Alike text text' → m.LooksSame text text' := by
  refine ⟨fun line => ?_, fun line => ?_, ?_, fun _ _ => Alike.looksSame⟩
  · rw [← String.toList_inj, toList_codeLine, toList_codeLine, m.read_read (by simp)]
  · rw [toList_codeLine]
    exact codeChars_sublist _ _ _
  · intro before quote inside rest h hquote hinside
    rw [← String.toList_inj]
    simp only [toList_codeLine, String.toList_append, String.toList_ofList,
      h.read_literal hquote (inside_of_forall hinside), List.append_assoc, List.cons_append,
      List.nil_append]

/-- A brace, a comma and the mark of a comment in a literal that stands behind a slash. -/
theorem codeLine_blind_brace :
    slashes.Outside ['x', '/'] ∧ '"' ∈ slashes.quotes ∧
      codeLine "//" "x/\"\x7b, //\"; // \x7d" = "x/\"\"; " ∧
      slashes.Alike "x/\"\x7b, //\"; // \x7d" "x/\"\"; // \x7d" ∧
      slashes.LooksSame "x/\"\x7b, //\"; // \x7d" "x/\"\"; // \x7d" := by
  have houtside : slashes.Outside ['x', '/'] :=
    .char (by decide) (by decide) (.char (by decide) (by decide) .nil)
  have hinside : ∀ c ∈ ['\x7b', ',', ' ', '/', '/'], c ≠ '"' ∧ c ≠ '\\' := by simp
  obtain ⟨-, -, hliteral, hlooks⟩ := codeLine_blind slashes
  have halike : slashes.Alike "x/\"\x7b, //\"; // \x7d" "x/\"\"; // \x7d" := by
    have hlines : Text.lines "x/\"\x7b, //\"; // \x7d" = ["x/\"\x7b, //\"; // \x7d"] := by decide
    have hlines' : Text.lines "x/\"\"; // \x7d" = ["x/\"\"; // \x7d"] := by decide
    rw [Alike, hlines, hlines']
    exact .cons (.single (@Differ.mk _ '"' _ "; // \x7d".toList _ [] houtside (by decide) hinside
      (List.forall_mem_nil _))) .nil
  refine ⟨houtside, by decide, ?_, halike, hlooks _ _ halike⟩
  exact (hliteral _ '"' _ "; // \x7d".toList houtside (by decide) hinside).trans (by decide)

end Marking

end CodeSurvey.Code
