import CodeSurvey.Proofs.Code.Literals
import CodeSurvey.Proofs.VisualBasic.Effects
import CodeSurvey.Proofs.VisualBasic.Words

/-!
# Heads and ends of Visual Basic blocks

A line that holds nothing but the head or the end of a block, under any indentation, is one statement,
and reading it opens or closes that block. Statements in the body of a member that are no ends and
open no function without a name leave the blocks alone.
-/

namespace CodeSurvey.VisualBasic

open Code (Listing)

/-! ## Words and names -/

/-- A name of ASCII letters, digits and low lines. -/
structure Identifier where
  text : String
  ne_nil : text.toList ≠ []
  ascii : text.toList.all (fun c => c.isAlphanum || c == '_') = true

/-- A text made up of letters, digits and low lines of any script. -/
structure IsName (name : String) : Prop where
  ne_nil : name.toList ≠ []
  isWord : ∀ c ∈ name.toList, Text.isWord c = true

instance (name : String) : Decidable (IsName name) :=
  decidable_of_iff (name.toList ≠ [] ∧ name.toList.all Text.isWord = true)
    ⟨fun h => ⟨h.1, List.all_eq_true.mp h.2⟩, fun h => ⟨h.1, List.all_eq_true.mpr h.2⟩⟩

/-- Words that begin a type. -/
inductive TypeWord where
  | classWord
  | moduleWord
  | structureWord
  deriving DecidableEq

def TypeWord.text : TypeWord → String
  | .classWord => "Class"
  | .moduleWord => "Module"
  | .structureWord => "Structure"

/-- Words that begin a member. -/
inductive MemberWord where
  | subWord
  | functionWord
  deriving DecidableEq

def MemberWord.text : MemberWord → String
  | .subWord => "Sub"
  | .functionWord => "Function"

def spaceHead (name : Identifier) : String := "Namespace" ++ " " ++ name.text

def TypeWord.head (word : TypeWord) (name : Identifier) : String := word.text ++ " " ++ name.text

/-- The head of a member without parameters. -/
def MemberWord.head (word : MemberWord) (name : Identifier) : String :=
  word.text ++ " " ++ name.text ++ "()"

/-- No blank, and none of the characters that begin a string, a comment or another statement. -/
def IsBare (c : Char) : Prop := Text.isBlank c = false ∧ c ∉ ['"', '\'', ':']

instance (c : Char) : Decidable (IsBare c) :=
  inferInstanceAs (Decidable (Text.isBlank c = false ∧ c ∉ ['"', '\'', ':']))

theorem bare_of_isWord {c : Char} (h : Text.isWord c = true) : IsBare c := by
  refine ⟨Text.isBlank_eq_false_of_isWord h, fun hmem => ?_⟩
  simp only [List.mem_cons, List.not_mem_nil, or_false] at hmem
  rcases hmem with rfl | rfl | rfl <;> exact absurd h (by decide)

theorem IsName.bare {name : String} (hname : IsName name) {c : Char} (h : c ∈ name.toList) :
    IsBare c := bare_of_isWord (hname.isWord c h)

/-- An indentation. -/
structure Margin where
  text : String
  blank : text.toList.all Text.isBlank = true

namespace Identifier

variable (name : Identifier) {c : Char}

theorem lt_of_mem (h : c ∈ name.text.toList) : c.toNat < 128 := by
  have hc := List.all_eq_true.mp name.ascii c h
  simp only [Char.isAlphanum, Char.isAlpha, Char.isUpper, Char.isLower, Char.isDigit,
    Bool.or_eq_true, Bool.and_eq_true, decide_eq_true_eq, beq_iff_eq] at hc
  rcases hc with ((⟨-, hc⟩ | ⟨-, hc⟩) | ⟨-, hc⟩) | rfl
  · exact Nat.lt_of_le_of_lt hc (by decide)
  · exact Nat.lt_of_le_of_lt hc (by decide)
  · exact Nat.lt_of_le_of_lt hc (by decide)
  · decide

theorem isWord_of_mem (h : c ∈ name.text.toList) : Text.isWord c = true := by
  rw [Text.isWord, if_pos (name.lt_of_mem h)]
  exact List.all_eq_true.mp name.ascii c h

theorem isName : IsName name.text := ⟨name.ne_nil, fun _ hc => name.isWord_of_mem hc⟩

theorem bare_of_mem (h : c ∈ name.text.toList) : IsBare c := name.isName.bare h

end Identifier

/-! ## Lines that are one statement -/

def codeOf (line : String) : String := Text.trim (Code.codeLine "'" line)

def statementsOn (line : String) : List String := (Text.splitOn " : " (codeOf line)).map Text.trim

/-- A text without blanks at its ends, quotes, comments and colons. -/
structure Plain (text : String) : Prop where
  head : ∀ c ∈ text.toList.head?, Text.isBlank c = false
  last : ∀ c ∈ text.toList.getLast?, Text.isBlank c = false
  bare : ∀ c ∈ text.toList, c ∉ ['"', '\'', ':']

/-- The code of a line without quotes and comments is the line. -/
theorem trim_codeLine_indented (m : Code.Marking) (margin : Margin) {text : String}
    (hhead : ∀ c ∈ text.toList.head?, Text.isBlank c = false)
    (hlast : ∀ c ∈ text.toList.getLast?, Text.isBlank c = false)
    (hbare : ∀ c ∈ text.toList, c ∉ m.quotes ∧ c ∉ m.mark.toList) :
    Text.trim (Code.codeLine m.mark (margin.text ++ text)) = text := by
  have hblank : ∀ c ∈ margin.text.toList, Text.isBlank c = true := List.all_eq_true.mp margin.blank
  have hplain : ∀ c ∈ (margin.text ++ text).toList, c ∉ m.quotes ∧ c ∉ m.mark.toList := by
    rw [String.toList_append]
    refine List.forall_mem_append.mpr ⟨fun c hc => ?_, hbare⟩
    have hmarks : (m.quotes ++ m.mark.toList).all (!Text.isBlank ·) = true := by cases m <;> decide
    rw [← not_or, ← List.mem_append]
    intro hmem
    have hnot := List.all_eq_true.mp hmarks c hmem
    simp [hblank c hc] at hnot
  rw [Code.Marking.codeLine_of_plain hplain]
  exact Text.trimWhere_append hblank hhead hlast

theorem codeOf_indented (margin : Margin) {text : String} (h : Plain text) :
    codeOf (margin.text ++ text) = text := by
  refine trim_codeLine_indented .apostrophe margin h.head h.last fun c hc => ?_
  have hbare := h.bare c hc
  simp only [List.mem_cons, List.not_mem_nil, or_false, not_or] at hbare
  simp [Code.Marking.quotes, Code.Marking.mark, hbare]

theorem statementsOn_indented (margin : Margin) {text : String} (h : Plain text) :
    statementsOn (margin.text ++ text) = [text] := by
  have hcolon : ¬ Text.Occurs " : " text := by
    intro hoccurs
    have hmem : ':' ∈ text.toList := hoccurs.subset (by decide)
    exact h.bare _ hmem (by decide)
  have htrim : Text.trim ("" ++ text) = text := Text.trimWhere_append (by simp) h.head h.last
  rw [String.empty_append] at htrim
  rw [statementsOn, codeOf_indented margin h, Text.splitOn_of_not_occurs hcolon, List.map_singleton,
    htrim]

/-! ## Recognising heads -/

section Recognition

open Regex

variable {text : String} {xs ys : List Char}

/-- An expression that begins with a word is not found in a text that begins otherwise. -/
theorem find?_eq_none_of_word {w : String} (htext : text.toList = xs ++ ys)
    (h : agree w.toList xs = false) (r : Regex) :
    (seq start (seq (litAnyCase w) r)).find? text = none :=
  ((Fails.litAnyCase (s := Cursor.ofChars text.toList) htext h).seq r).find?

/-- After the word of a head come a blank and the name, which is captured. -/
theorem takes_name (bound : Nat) {s : Cursor} {c : CharClass} {name : String} {tail : List Char}
    (hname : IsName name) (hrest : s.rest = [' '] ++ (name.toList ++ tail))
    (hbound : s.rest.length ≤ bound)
    (hword : ∀ x, Text.isWord x = true → c.has x = true) (htail : ∀ x ∈ tail.head?, c.has x = false)
    (n : Nat) :
    ∃ t, Takes bound (all [gap, group n (plus (set c))]) s t ∧
      t.groups = (n, ⟨s.index + 1, name.toList⟩) :: s.groups := by
  rw [hrest] at hbound
  simp only [List.length_append, List.length_singleton] at hbound
  have hnext : (s.past [' ']).rest = name.toList ++ tail := Cursor.rest_past hrest
  have hgap : Takes bound gap s (s.past [' ']) := by
    refine Takes.plus_set (by simp) hrest ?_ ?_ (Nat.le_of_add_right_le hbound)
    · intro x hx
      rw [List.mem_singleton.mp hx]
      rfl
    · intro x hx
      rw [List.head?_append_of_ne_nil _ hname.ne_nil] at hx
      exact (hname.bare (List.mem_of_mem_head? hx)).1
  have htaken : Takes bound (plus (set c)) (s.past [' ']) ((s.past [' ']).past name.toList) := by
    refine Takes.plus_set hname.ne_nil hnext ?_ htail (by omega)
    intro x hx
    exact hword x (hname.isWord x hx)
  refine ⟨_, hgap.seq ((htaken.group n).seq (Takes.empty _)), ?_⟩
  rw [Cursor.capture_past hnext]
  simp

/-- The words that begin heads. -/
def headWords : List String := ["Namespace", "Class", "Module", "Structure", "Sub", "Function"]

theorem TypeWord.mem_headWords (word : TypeWord) : word.text ∈ headWords := by
  cases word <;> decide

theorem MemberWord.mem_headWords (word : MemberWord) : word.text ∈ headWords := by
  cases word <;> decide

/-- No modifier stands where the word of a head does. -/
theorem fails_modifier {word : String} (hword : word ∈ headWords) (bound : Nat) {s : Cursor}
    (hrest : s.rest = word.toList ++ ys) : Fails bound (oneOfAnyCase modifierWords) s := by
  have hclash : ∀ w ∈ headWords, ∀ modifier ∈ modifierWords,
      agree modifier.toList w.toList = false := by decide
  exact Fails.oneOfAnyCase hrest (hclash word hword)

/-- The words that begin declarations. -/
def openingWords : List String := headWords ++ "Dim" :: modifierWords

theorem mem_openingWords {word : String} (h : word ∈ headWords) : word ∈ openingWords :=
  List.mem_append_left _ h

section Words

variable {word : String} (hword : word ∈ openingWords) (htext : text.toList = word.toList ++ ys)

include hword htext

theorem find?_blockEnd_head : blockEnd.find? text = none := by
  have hclash : ∀ w ∈ openingWords, agree "End".toList w.toList = false := by decide
  exact find?_eq_none_of_word htext (hclash word hword) _

theorem find?_importHead_head : importHead.find? text = none := by
  have hclash : ∀ w ∈ openingWords, agree "Imports".toList w.toList = false := by decide
  exact find?_eq_none_of_word htext (hclash word hword) _

theorem find?_namespaceHead_head (hne : word ≠ "Namespace") : namespaceHead.find? text = none := by
  have hclash : ∀ w ∈ openingWords, w ≠ "Namespace" →
      agree "Namespace".toList w.toList = false := by decide
  exact find?_eq_none_of_word htext (hclash word hword hne) _

theorem find?_heritage_head : heritage.find? text = none := by
  have hclash : ∀ w ∈ openingWords, ∀ v ∈ ["Inherits", "Implements"],
      agree v.toList w.toList = false := by decide
  have hfails : Fails text.length (oneOfAnyCase ["Inherits", "Implements"])
      (Cursor.ofChars text.toList) :=
    Fails.oneOfAnyCase (s := Cursor.ofChars text.toList) htext (hclash word hword)
  exact ((hfails.group 1).seq _).find?

theorem find?_attributeBlock_head : attributeBlock.find? text = none := by
  have hhead : ∀ w ∈ openingWords, w.toList ≠ [] ∧ w.toList.head? ≠ some '<' := by decide
  obtain ⟨hne, hfirst⟩ := hhead word hword
  have hfails : Fails text.length (set (.one '<')) (Cursor.ofChars text.toList) := by
    apply Fails.set
    intro x hx
    apply beq_eq_false_iff_ne.mpr
    rintro rfl
    refine hfirst ?_
    rw [← List.head?_append_of_ne_nil _ hne, ← htext]
    exact hx
  exact ((hfails.seq _).seq _).find?

end Words

theorem find?_spaceHead (name : Identifier) :
    ∃ m, namespaceHead.find? (spaceHead name) = some m ∧ m.group 1 = name.text := by
  let s := Cursor.ofChars (spaceHead name).toList
  have hrest : s.rest = "Namespace".toList ++ ([' '] ++ (name.text.toList ++ [])) := by
    simp [s, Cursor.ofChars, spaceHead]
  have hword : Only (spaceHead name).length (litAnyCase "Namespace") s
      (s.past "Namespace".toList) := Only.litAnyCase hrest (by decide) rfl
  obtain ⟨t, ht, hgroups⟩ := takes_name (spaceHead name).length
    (c := .anyOf [.word, .one '.']) name.isName (Cursor.rest_past hrest) (s.length_rest_past_le _)
    (by intro x hx; simp [CharClass.anyOf, CharClass.has, hx]) (by simp) 1
  refine ⟨_, (hword.takes.seq ht).find?, ?_⟩
  simp [Match.group, Match.group?, hgroups]

theorem TypeWord.find?_head (word : TypeWord) {name : String} (hname : IsName name)
    (htext : text.toList = word.text.toList ++ ([' '] ++ name.toList)) :
    ∃ m, typeHead.find? text = some m ∧
      m.group 1 = "" ∧ m.group 2 = word.text ∧ m.group 3 = name := by
  let s := Cursor.ofChars text.toList
  have hrest : s.rest = word.text.toList ++ ([' '] ++ (name.toList ++ [])) := by
    rw [List.append_nil]
    exact htext
  have hmodifiers : Only text.length (group 1 modifiers) s (s.capture s 1) :=
    (Only.many ((fails_modifier word.mem_headWords _ hrest).seq _)).group 1
  have hword : Takes text.length
      (oneOfAnyCase ["Class", "Module", "Structure", "Interface", "Enum"]) (s.capture s 1)
      ((s.capture s 1).past word.text.toList) := by
    refine Takes.oneOfAnyCase (w := word.text) hrest ?_ rfl
    cases word <;> decide
  have hbound : s.rest.length ≤ text.length := String.length_toList.le
  obtain ⟨t, ht, hgroups⟩ := takes_name text.length (c := .word)
    (s := ((s.capture s 1).past word.text.toList).capture (s.capture s 1) 2) hname
    (Cursor.rest_past (s := s.capture s 1) hrest)
    (((s.capture s 1).length_rest_past_le _).trans hbound) (fun x hx => hx) (by simp) 3
  refine ⟨_, (hmodifiers.takes.seq ((hword.group 2).seq ht)).find?, ?_⟩
  rw [Cursor.capture_past (s := s.capture s 1) hrest] at hgroups
  simp [Match.group, Match.group?, hgroups, Cursor.capture, s, Cursor.ofChars, List.lookup]

section Members

variable (word : MemberWord) {mods : List String} {name : String} {tail : List Char}
  (hmods : ∀ w ∈ mods, w ∈ modifierWords)

include hmods

/-- The name of a member ends where no word goes on. -/
theorem MemberWord.find?_head (hname : IsName name)
    (htext : text.toList = spaced mods ++ (word.text.toList ++ ([' '] ++ (name.toList ++ tail))))
    (htail : ∀ x ∈ tail.head?, Text.isWord x = false) :
    ∃ m, methodHead.find? text = some m ∧
      m.group 1 = String.ofList (spaced mods) ∧ m.group 3 = name := by
  let s := Cursor.ofChars text.toList
  have hrest : s.rest = spaced mods ++ (word.text.toList ++ ([' '] ++ (name.toList ++ tail))) :=
    htext
  let s' := (s.past (spaced mods)).capture s 1
  have hrest' : s'.rest = word.text.toList ++ ([' '] ++ (name.toList ++ tail)) :=
    Cursor.rest_past hrest
  have hbound : s.rest.length ≤ text.length := String.length_toList.le
  have hmodifiers : Takes text.length (group 1 modifiers) s s' := by
    refine (takes_modifiers hmods hrest ?_ (fails_modifier word.mem_headWords _ hrest') ?_
      ?_).group 1
    · cases word <;> rintro c ⟨⟩ <;> rfl
    · refine le_trans ?_ hbound
      rw [hrest, List.length_append]
      exact (length_le_spaced mods).trans (Nat.le_add_right _ _)
    · refine le_trans ?_ hbound
      rw [hrest]
      simp only [List.length_append, List.length_singleton]
      omega
  have hdeclare : Only text.length
      (opt (all [litAnyCase "Declare", gap, many Regex.word, blanks])) s' s' := by
    have hclash : agree "Declare".toList word.text.toList = false := by cases word <;> decide
    exact Only.opt ((Fails.litAnyCase hrest' hclash).seq _)
  have hword : Takes text.length (oneOfAnyCase ["Sub", "Function"]) s'
      (s'.past word.text.toList) := by
    refine Takes.oneOfAnyCase (w := word.text) hrest' ?_ rfl
    cases word <;> decide
  have hshort : (s'.past word.text.toList).rest.length ≤ text.length :=
    ((s'.length_rest_past_le _).trans (s.length_rest_past_le _)).trans hbound
  obtain ⟨t, ht, hgroups⟩ := takes_name text.length (c := .word)
    (s := (s'.past word.text.toList).capture s' 2) hname (Cursor.rest_past hrest') hshort
    (fun x hx => hx) htail 3
  refine ⟨_, (hmodifiers.seq (hdeclare.takes.seq ((hword.group 2).seq ht))).find?, ?_⟩
  rw [Cursor.capture_past hrest'] at hgroups
  have hfirst : s'.groups = [(1, ⟨s.index, spaced mods⟩)] :=
    congrArg Cursor.groups (Cursor.capture_past hrest 1)
  simp [Match.group, Match.group?, hgroups, hfirst, List.lookup]

/-- The head of a member is no head of a type. -/
theorem MemberWord.find?_typeHead {ys : List Char}
    (htext : text.toList = spaced mods ++ (word.text.toList ++ ' ' :: ys)) :
    typeHead.find? text = none := by
  have hwords : ∀ w ∈ modifierWords ++ ["Sub", "Function"],
      IsChunk w ∧ Differs ["Class", "Module", "Structure", "Interface", "Enum"] w := by decide
  have hall : ∀ w ∈ mods ++ [word.text],
      IsChunk w ∧ Differs ["Class", "Module", "Structure", "Interface", "Enum"] w := by
    intro w hw
    apply hwords
    rcases List.mem_append.mp hw with hw | hw
    · exact List.mem_append_left _ (hmods w hw)
    · rw [List.mem_singleton.mp hw]
      cases word <;> decide
  refine find?_typeHead_of_differs (fun w hw => (hall w hw).1) ?_ htext fun w hw => (hall w hw).2
  cases word <;> decide

end Members

end Recognition

/-! ## Plain heads and ends -/

/-- Two parts with a space between them are plain if their characters are bare. -/
theorem plain_spaced {text : String} {xs ys : List Char} (htext : text.toList = xs ++ ([' '] ++ ys))
    (hxs : xs ≠ []) (hys : ys ≠ []) (hbare : ∀ c ∈ xs ++ ys, IsBare c) : Plain text := by
  have hleft (c : Char) (hc : c ∈ xs) : IsBare c := hbare c (List.mem_append_left _ hc)
  have hright (c : Char) (hc : c ∈ ys) : IsBare c := hbare c (List.mem_append_right _ hc)
  constructor
  · intro c hc
    rw [htext, List.head?_append_of_ne_nil _ hxs] at hc
    exact (hleft c (List.mem_of_mem_head? hc)).1
  · intro c hc
    rw [htext, ← List.append_assoc, List.getLast?_append_of_ne_nil _ hys] at hc
    exact (hright c (List.mem_of_mem_getLast? hc)).1
  · intro c hc
    rw [htext, List.mem_append, List.mem_append] at hc
    rcases hc with hc | hc | hc
    · exact (hleft c hc).2
    · rw [List.mem_singleton.mp hc]
      decide
    · exact (hright c hc).2

theorem bare_of_mem_headWords {word : String} (hword : word ∈ headWords) :
    word.toList ≠ [] ∧ ∀ c ∈ word.toList, IsBare c := by
  have hwords : ∀ w ∈ headWords, w.toList ≠ [] ∧
      w.toList.all (fun c => decide (IsBare c)) = true := by decide
  obtain ⟨hne, hall⟩ := hwords word hword
  exact ⟨hne, fun c hc => of_decide_eq_true (List.all_eq_true.mp hall c hc)⟩

theorem plain_head {word text name : String} {tail : List Char} (hword : word ∈ headWords)
    (hname : IsName name) (htext : text.toList = word.toList ++ ([' '] ++ (name.toList ++ tail)))
    (htail : ∀ c ∈ tail, IsBare c) : Plain text := by
  obtain ⟨hne, hbare⟩ := bare_of_mem_headWords hword
  refine plain_spaced htext hne (by simp [hname.ne_nil]) ?_
  intro c hc
  rw [List.mem_append, List.mem_append] at hc
  rcases hc with hc | hc | hc
  · exact hbare c hc
  · exact hname.bare hc
  · exact htail c hc

theorem plain_spaceHead (name : Identifier) : Plain (spaceHead name) := by
  have hword : "Namespace" ∈ headWords := by decide
  have htext : (spaceHead name).toList =
      "Namespace".toList ++ ([' '] ++ (name.text.toList ++ [])) := by simp [spaceHead]
  exact plain_head hword name.isName htext (by simp)

theorem TypeWord.plain_head (word : TypeWord) (name : Identifier) : Plain (word.head name) := by
  have htext : (word.head name).toList =
      word.text.toList ++ ([' '] ++ (name.text.toList ++ [])) := by simp [TypeWord.head]
  exact VisualBasic.plain_head word.mem_headWords name.isName htext (by simp)

theorem MemberWord.plain_head (word : MemberWord) (name : Identifier) : Plain (word.head name) := by
  have htext : (word.head name).toList =
      word.text.toList ++ ([' '] ++ (name.text.toList ++ ['(', ')'])) := by simp [MemberWord.head]
  refine VisualBasic.plain_head word.mem_headWords name.isName htext ?_
  intro c hc
  simp only [List.mem_cons, List.not_mem_nil, or_false] at hc
  rcases hc with rfl | rfl <;> decide

theorem plain_foot {word : String} (hword : word ∈ headWords) : Plain ("End " ++ word) := by
  obtain ⟨hne, hbare⟩ := bare_of_mem_headWords hword
  have htext : ("End " ++ word).toList = ['E', 'n', 'd'] ++ ([' '] ++ word.toList) := by simp
  refine plain_spaced htext (by simp) hne ?_
  intro c hc
  simp only [List.cons_append, List.nil_append, List.mem_cons] at hc
  rcases hc with rfl | rfl | rfl | hc
  · decide
  · decide
  · decide
  · exact hbare c hc

/-! ## Reading heads and ends -/

/-- No member is open directly around. -/
def State.Outside (s : State) : Prop :=
  ∀ name start position rest, s.scopes ≠ .member name start position :: rest

section Reading

variable {t : Document} {s : State} {line : Nat}

theorem takeAttributes_of_none {statement : String} (h : attributeBlock.find? statement = none)
    (fuel : Nat) : takeAttributes fuel statement = ([], statement) := by
  cases fuel with
  | zero => rfl
  | succ fuel => simp [takeAttributes, h]

/-- A statement outside of members that is no end and has no attributes. -/
theorem statementStep_outside {text : String} (hne : text ≠ "") (hend : blockEnd.find? text = none)
    (hattributes : attributeBlock.find? text = none) (hs : s.Outside) :
    statementStep t s line text = outerStep t s text line := by
  have hempty : text.isEmpty = false := by
    rw [← Bool.not_eq_true, String.isEmpty_iff]
    exact hne
  have htaken := takeAttributes_of_none hattributes text.length
  unfold statementStep
  rw [if_neg (by simp [hempty]), hend]
  dsimp only
  split
  · next name start position rest hscopes => exact absurd hscopes (hs name start position rest)
  · simp [htaken, hempty]

/-- A head outside of members is read without attributes. -/
theorem statementStep_head {word text : String} {ys : List Char} (hword : word ∈ openingWords)
    (htext : text.toList = word.toList ++ ys) (hs : s.Outside) :
    statementStep t s line text = outerStep t s text line := by
  have hne : text ≠ "" := by
    have hwords : ∀ w ∈ openingWords, w.toList ≠ [] := by decide
    rintro rfl
    simp [hwords word hword] at htext
  exact statementStep_outside hne (find?_blockEnd_head hword htext)
    (find?_attributeBlock_head hword htext) hs

theorem statementStep_spaceHead (name : Identifier) (hs : s.Outside) :
    statementStep t s line (spaceHead name) = (s.enter (.namespace name.text), []) := by
  have hword : "Namespace" ∈ openingWords := by decide
  have htext : (spaceHead name).toList = "Namespace".toList ++ (" " ++ name.text).toList := by
    simp [spaceHead]
  obtain ⟨m, hm, hname⟩ := find?_spaceHead name
  rw [statementStep_head hword htext hs, outerStep, find?_importHead_head hword htext, hm]
  dsimp only
  rw [hname]

/-- The head of a type. -/
theorem statementStep_type (word : TypeWord) {text name : String} (hname : IsName name)
    (htext : text.toList = word.text.toList ++ ([' '] ++ name.toList)) (hs : s.Outside) :
    statementStep t s line text = typeStep t s word.text name "" line := by
  have hword := mem_openingWords word.mem_headWords
  have hspace := find?_namespaceHead_head hword htext (by cases word <;> decide)
  obtain ⟨m, hm, hmodifiers, hkeyword, hgroup⟩ := word.find?_head hname htext
  rw [statementStep_head hword htext hs, outerStep, find?_importHead_head hword htext, hspace, hm]
  dsimp only
  rw [hmodifiers, hkeyword, hgroup]

theorem statementStep_typeHead (word : TypeWord) (name : Identifier) (hs : s.Outside) :
    statementStep t s line (word.head name) = typeStep t s word.text name.text "" line :=
  statementStep_type word name.isName (by simp [TypeWord.head]) hs

/-- A row of modifiers and a word of a member begin with a word that may begin a declaration. -/
theorem exists_openingWord (word : MemberWord) {mods : List String} {text : String} {ys : List Char}
    (hmods : ∀ w ∈ mods, w ∈ modifierWords)
    (htext : text.toList = spaced mods ++ (word.text.toList ++ ys)) :
    ∃ w ∈ openingWords, w ≠ "Namespace" ∧ ∃ zs, text.toList = w.toList ++ zs := by
  cases mods with
  | nil =>
    refine ⟨word.text, mem_openingWords word.mem_headWords, ?_, ys, htext⟩
    cases word <;> decide
  | cons w mods =>
    have hw := hmods w List.mem_cons_self
    have hne : "Namespace" ∉ modifierWords := by decide
    rw [spaced, List.append_assoc] at htext
    exact ⟨w, List.mem_append_right _ (List.mem_cons_of_mem _ hw), fun heq => hne (heq ▸ hw), _,
      htext⟩

/-- The head of a member, whatever modifiers it has and whatever follows on its name. -/
theorem statementStep_member (word : MemberWord) {mods : List String} {text name : String}
    {tail : List Char} (hmods : ∀ w ∈ mods, w ∈ modifierWords) (hname : IsName name)
    (htext : text.toList = spaced mods ++ (word.text.toList ++ ([' '] ++ (name.toList ++ tail))))
    (htail : ∀ x ∈ tail.head?, Text.isWord x = false) (hs : s.Outside) :
    ∃ rest, statementStep t s line text =
      methodStep t s name (String.ofList (spaced mods)) rest line := by
  obtain ⟨w, hw, hne, zs, hopening⟩ := exists_openingWord word hmods htext
  obtain ⟨m, hm, hmodifiers, hgroup⟩ := word.find?_head hmods hname htext htail
  refine ⟨Text.drop m.stop text, ?_⟩
  rw [statementStep_head hw hopening hs, outerStep, find?_importHead_head hw hopening,
    find?_namespaceHead_head hw hopening hne, word.find?_typeHead hmods htext,
    find?_heritage_head hw hopening, hm]
  dsimp only
  rw [hmodifiers, hgroup]

theorem statementStep_memberHead (word : MemberWord) (name : Identifier) (hs : s.Outside) :
    ∃ rest, statementStep t s line (word.head name) = methodStep t s name.text "" rest line := by
  have htext : (word.head name).toList =
      spaced [] ++ (word.text.toList ++ ([' '] ++ (name.text.toList ++ ['(', ')']))) := by
    simp [MemberWord.head, spaced]
  have htail : ∀ x ∈ ['(', ')'].head?, Text.isWord x = false := by
    rintro x ⟨⟩
    decide
  obtain ⟨rest, hstep⟩ : ∃ rest, statementStep t s line (word.head name) =
      methodStep t s name.text (String.ofList (spaced [])) rest line :=
    statementStep_member word (List.forall_mem_nil _) name.isName htext htail hs
  exact ⟨rest, hstep⟩

/-- The end of a block closes the innermost one, unless a function without a name is open. -/
theorem statementStep_end {word : String} (hword : word ∈ headWords) (hlambdas : s.lambdas = 0) :
    statementStep t s line ("End " ++ word) = s.close t.listing line := by
  have hfind : ∀ w ∈ headWords, (blockEnd.find? ("End " ++ w)).isSome = true ∧
      ("End " ++ w).isEmpty = false := by decide +kernel
  obtain ⟨hsome, hne⟩ := hfind word hword
  obtain ⟨m, hm⟩ := Option.isSome_iff_exists.mp hsome
  simp [statementStep, hne, hm, endStep, hlambdas]

/-- A statement in the body of a member that ends no block and opens no function without a name
leaves the state as it is. -/
theorem statementStep_body {statement name : String} {start position : Nat} {rest : List Scope}
    (hscopes : s.scopes = .member name start position :: rest)
    (hend : blockEnd.find? statement = none) (hlambda : openLambda.isMatch statement = false) :
    ∃ facts, statementStep t s line statement = (s, facts) ∧ AllQuiet facts := by
  unfold statementStep
  split
  · exact ⟨[], rfl, AllFacts.nil⟩
  · rw [hend]
    dsimp only
    rw [hscopes]
    refine ⟨bodyFacts statement name (line + 1), ?_, (regular_bodyFacts _ _ _).quiet⟩
    simp [hlambda]

end Reading

end CodeSurvey.VisualBasic
