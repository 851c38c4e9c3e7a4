import CodeSurvey.Proofs.VisualBasic.Heads

/-!
# Fields of Visual Basic types

A line that gives a name a type, and whose name is no word that begins another declaration, is read
as a field: no other head is found on it, whatever the modifiers, the type and the initial value are.
-/

namespace CodeSurvey.VisualBasic

/-! ## Names of fields -/

/-- Words that begin a field. -/
inductive FieldWord where
  | publicWord
  | privateWord
  | protectedWord
  | friendWord
  | dimWord
  deriving DecidableEq

def FieldWord.text : FieldWord → String
  | .publicWord => "Public"
  | .privateWord => "Private"
  | .protectedWord => "Protected"
  | .friendWord => "Friend"
  | .dimWord => "Dim"

/-- Words that may stand before the name of a field. -/
def fieldModifiers : List String := ["ReadOnly", "Shared", "Shadows", "WithEvents", "Const"]

/-- Words that begin other declarations. -/
def otherWords : List String :=
  ["Class", "Module", "Structure", "Interface", "Enum", "Sub", "Function", "Property", "Declare"]

/-- A name in any script. -/
structure Name where
  text : String
  isName : IsName text

/-- What stands before the type of a field. The name is none of the words above, in any case. -/
structure FieldHead where
  word : FieldWord
  modifiers : List String
  name : Name
  known : ∀ w ∈ modifiers, w ∈ fieldModifiers
  free : Differs (otherWords ++ fieldModifiers) name.text

namespace FieldHead

variable (f : FieldHead)

/-- The words before the one that announces the type. -/
def words : List String := f.word.text :: (f.modifiers ++ [f.name.text])

theorem isChunk_name : IsChunk f.name.text := by
  refine ⟨f.name.isName.ne_nil, List.all_eq_true.mpr fun c hc => ?_⟩
  rw [(f.name.isName.bare hc).1]
  rfl

theorem forall_mem_words {P : String → Prop} (hwords : ∀ word : FieldWord, P word.text)
    (hmodifiers : ∀ w ∈ fieldModifiers, P w) (hname : P f.name.text) (has : P "As") :
    ∀ w ∈ f.words ++ ["As"], P w := by
  intro w hw
  rcases List.mem_append.mp hw with hw | hw
  · rcases List.mem_cons.mp hw with rfl | hw
    · exact hwords f.word
    · rcases List.mem_append.mp hw with hw | hw
      · exact hmodifiers w (f.known w hw)
      · rwa [List.mem_singleton.mp hw]
  · rwa [List.mem_singleton.mp hw]

theorem isChunk_of_mem : ∀ w ∈ f.words ++ ["As"], IsChunk w :=
  f.forall_mem_words (fun word => by cases word <;> decide) (by decide) f.isChunk_name (by decide)

theorem differs_of_mem : ∀ w ∈ f.words ++ ["As"], Differs otherWords w :=
  f.forall_mem_words (fun word => by cases word <;> decide) (by decide)
    (f.free.mono fun _ hv => List.mem_append_left _ hv) (by decide)

end FieldHead

/-! ## Recognising fields -/

section Recognition

open Regex

variable {s : Cursor} {tail : List Char} {text : String} (f : FieldHead)

/-- After the name of a field its type is read to the end of the line. -/
theorem exists_reads_type (hrest : s.rest = ' ' :: 'A' :: 's' :: ' ' :: tail) (htail : tail ≠ [])
    (hline : '\n' ∉ tail) :
    ∃ t, Reads (all [
      gap, litAnyCase "As", gap, opt (all [litAnyCase "New", gap]),
      group 2 (plusLazy (set .notNewline)), blanks, opt (all [lit "=", many (set .notNewline)]),
      stop]) s t := by
  have has : (s.past [' ']).rest = ['A', 's'] ++ ' ' :: tail := Cursor.rest_past hrest
  have hgap : ((s.past [' ']).past ['A', 's']).rest = ' ' :: tail := Cursor.rest_past has
  have htype : (((s.past [' ']).past ['A', 's']).past [' ']).rest = tail ++ [] := by
    rw [List.append_nil]
    exact Cursor.rest_past hgap
  have hstop := Cursor.rest_past htype
  have hspells : Reads (litAnyCase "As") (s.past [' ']) ((s.past [' ']).past ['A', 's']) :=
    (spans_classes _ _ _ _).mpr ⟨_, _, has, .cons (by decide) (.cons (by decide) .nil), rfl⟩
  have hall : ∀ x ∈ tail, CharClass.notNewline.has x = true := by
    intro x hx
    have hne : x ≠ '\n' := fun heq => hline (heq ▸ hx)
    simpa [CharClass.notNewline, CharClass.has] using hne.symm
  have hlazy : Reads (plusLazy (set .notNewline)) (((s.past [' ']).past ['A', 's']).past [' '])
      ((((s.past [' ']).past ['A', 's']).past [' ']).past tail) := by
    cases tail with
    | nil => exact absurd rfl htail
    | cons x xs =>
      obtain ⟨hx, hxs⟩ := List.forall_mem_cons.mp hall
      exact .seq (.set htype hx) (Reads.star_set (Cursor.rest_past htype) hxs)
  refine ⟨_, .seq (.seq (.set hrest rfl) .stop) (.seq hspells (.seq (.seq (.set hgap rfl) .stop)
    (.seq (.right .empty) (.seq (.group hlazy) (.seq .stop (.seq (.right .empty)
      (.seq (.look ?_) .empty)))))))⟩
  exact List.isEmpty_iff.mpr hstop

section Others

variable (htext : text.toList = spaced f.words ++ ("As".toList ++ ' ' :: tail))

include htext

theorem find?_typeHead_field : typeHead.find? text = none :=
  find?_typeHead_of_differs f.isChunk_of_mem (by decide) htext
    fun w hw => (f.differs_of_mem w hw).mono (by decide)

theorem find?_methodHead_field : methodHead.find? text = none :=
  find?_methodHead_of_differs f.isChunk_of_mem (by decide) htext
    fun w hw => (f.differs_of_mem w hw).mono (by decide)

theorem find?_propertyHead_field : propertyHead.find? text = none :=
  find?_propertyHead_of_differs f.isChunk_of_mem (by decide) htext
    fun w hw => (f.differs_of_mem w hw).mono (by decide)

/-- The name of a field is found, whatever its modifiers and its type are. -/
theorem exists_find?_fieldHead (htail : tail ≠ []) (hline : '\n' ∉ tail) :
    ∃ m, fieldHead.find? text = some m ∧ m.group 1 = f.name.text := by
  let s := Cursor.ofChars text.toList
  let s₁ := s.past f.word.text.toList
  let s₂ := s₁.past [' ']
  let s₃ := s₂.past (spaced f.modifiers)
  have hrest : s.rest = f.word.text.toList ++ ([' '] ++ (spaced f.modifiers ++
      (f.name.text.toList ++ ' ' :: 'A' :: 's' :: ' ' :: tail))) := by
    simp [s, Cursor.ofChars, htext, FieldHead.words, spaced, spaced_append]
  have hgapped : s₁.rest = _ := Cursor.rest_past hrest
  have hmodified : s₂.rest = _ := Cursor.rest_past hgapped
  have hnamed : s₃.rest = _ := Cursor.rest_past hmodified
  have hfits :
      f.modifiers.length + (f.name.text.toList.length + (tail.length + 4)) < text.length := by
    have hrow := length_le_spaced f.modifiers
    have hlength := congrArg List.length hrest
    simp only [s, Cursor.ofChars, String.length_toList, List.length_append, List.length_cons,
      List.length_nil] at hlength
    rw [hlength, String.length_toList]
    omega
  have hname : ∀ c ∈ (f.name.text.toList ++ ' ' :: 'A' :: 's' :: ' ' :: tail).head?,
      Text.isBlank c = false := by
    intro c hc
    rw [List.head?_append_of_ne_nil _ f.name.isName.ne_nil] at hc
    exact (f.name.isName.bare (List.mem_of_mem_head? hc)).1
  have hknown : ∀ w ∈ fieldModifiers, IsChunk w ∧
      fieldModifiers.find? (fun v => agree v.toList w.toList) = some w := by decide
  have hword : Takes text.length
      (oneOfAnyCase ["Public", "Private", "Protected", "Friend", "Dim"]) s s₁ := by
    refine Takes.oneOfAnyCase (w := f.word.text) hrest ?_ rfl
    cases f.word <;> decide
  have hgap : Takes text.length gap s₁ s₂ :=
    Takes.plus_set (by simp) hgapped (List.forall_mem_singleton.mpr rfl)
      (head_spaced (fun w hw => (hknown w (f.known w hw)).1) hname) (by simp; omega)
  have hstop : Fails text.length (all [oneOfAnyCase fieldModifiers, gap]) s₃ :=
    Fails.of_not_reads fun t h => not_reads_word f.isChunk_name
      (f.free.mono fun v hv => List.mem_append_right _ hv) (by decide) hnamed h
  have hmodifiers : Takes text.length (many (all [oneOfAnyCase fieldModifiers, gap])) s₂ s₃ :=
    (takesRounds_spaced (fun w hw => hknown w (f.known w hw)) hmodified hname hstop (by omega)
      (by omega)).many
  have htaken : Takes text.length (plus Regex.word) s₃ (s₃.past f.name.text.toList) :=
    Takes.plus_set f.name.isName.ne_nil hnamed f.name.isName.isWord (by rintro x ⟨⟩; decide)
      (by omega)
  have htakes : Takes text.length (all [
      oneOfAnyCase ["Public", "Private", "Protected", "Friend", "Dim"], gap,
      many (all [oneOfAnyCase fieldModifiers, gap]), group 1 (plus Regex.word)]) s _ :=
    hword.seq (hgap.seq (hmodifiers.seq ((htaken.group 1).seq (Takes.empty _))))
  have htyped : ((s₃.past f.name.text.toList).capture s₃ 1).rest =
      ' ' :: 'A' :: 's' :: ' ' :: tail := Cursor.rest_past hnamed
  obtain ⟨u, hu⟩ := exists_reads_type htyped htail hline
  have hshort : ((s₃.past f.name.text.toList).capture s₃ 1).rest.length ≤ text.length := by
    rw [htyped]
    simp only [List.length_cons]
    omega
  obtain ⟨m, hm, hgroups⟩ := htakes.exists_find? hshort hu
  refine ⟨m, hm, ?_⟩
  rw [Match.group, Match.group?, hgroups 1 (by decide), Cursor.capture_past hnamed,
    List.lookup_cons_self, Option.map_some, Option.getD_some, String.ofList_toList]

end Others

end Recognition

/-! ## Reading fields -/

/-- Characters that begin no string, no comment, no other statement and no other line. -/
def Unmarked (cs : List Char) : Prop := ∀ c ∈ cs, c ∉ ['"', '\'', ':', '\n']

theorem unmarked_append {xs ys : List Char} : Unmarked (xs ++ ys) ↔ Unmarked xs ∧ Unmarked ys :=
  List.forall_mem_append

theorem unmarked_cons {x : Char} {xs : List Char} :
    Unmarked (x :: xs) ↔ x ∉ ['"', '\'', ':', '\n'] ∧ Unmarked xs := List.forall_mem_cons

theorem unmarked_spaced {ws : List String} (h : ∀ w ∈ ws, Unmarked w.toList) :
    Unmarked (spaced ws) := by
  induction ws with
  | nil => exact List.forall_mem_nil _
  | cons w ws ih =>
    obtain ⟨hw, hws⟩ := List.forall_mem_cons.mp h
    exact unmarked_append.mpr ⟨hw, unmarked_cons.mpr ⟨by decide, ih hws⟩⟩

theorem Unmarked.of_all {cs : List Char}
    (h : cs.all (fun c => decide (c ∉ ['"', '\'', ':', '\n'])) = true) : Unmarked cs :=
  fun c hc => of_decide_eq_true (List.all_eq_true.mp h c hc)

theorem Unmarked.of_bare {cs : List Char} (h : ∀ c ∈ cs, IsBare c) : Unmarked cs := by
  intro c hc hmem
  obtain ⟨hblank, hmarks⟩ := h c hc
  simp only [List.mem_cons, List.not_mem_nil, or_false, not_or] at hmem hmarks
  rcases hmem with rfl | rfl | rfl | rfl
  · exact hmarks.1 rfl
  · exact hmarks.2.1 rfl
  · exact hmarks.2.2 rfl
  · exact absurd hblank (by decide)

theorem Plain.of_unmarked {text : String} (hhead : ∀ c ∈ text.toList.head?, Text.isBlank c = false)
    (hlast : ∀ c ∈ text.toList.getLast?, Text.isBlank c = false) (h : Unmarked text.toList) :
    Plain text := by
  refine ⟨hhead, hlast, fun c hc hmem => h c hc ?_⟩
  exact List.mem_append_left ['\n'] hmem

/-- The type of a field, after which a value may follow. -/
structure TypeText where
  text : String
  ne_nil : text.toList ≠ []
  last : ∀ c ∈ text.toList.getLast?, Text.isBlank c = false
  unmarked : Unmarked text.toList

def fieldText (f : FieldHead) (type : TypeText) : String :=
  String.ofList (spaced f.words) ++ "As " ++ type.text

section Reading

variable (f : FieldHead) (type : TypeText)

theorem toList_fieldText : (fieldText f type).toList =
    spaced f.words ++ ("As".toList ++ ' ' :: type.text.toList) := by
  simp [fieldText]

theorem plain_fieldText : Plain (fieldText f type) := by
  refine Plain.of_unmarked ?_ ?_ ?_
  · rw [toList_fieldText]
    refine head_spaced (fun w hw => f.isChunk_of_mem w (List.mem_append_left _ hw)) ?_
    rintro c ⟨⟩
    rfl
  · intro c hc
    have hlast : (fieldText f type).toList.getLast? = type.text.toList.getLast? := by
      rw [toList_fieldText, ← List.getLast?_append_of_ne_nil
        (spaced f.words ++ ['A', 's', ' ']) type.ne_nil]
      simp
    exact type.last c (hlast ▸ hc)
  · rw [toList_fieldText, unmarked_append]
    refine ⟨unmarked_spaced fun w hw => ?_, unmarked_append.mpr ⟨.of_all (by decide), ?_⟩⟩
    · have hmodifiers : ∀ w ∈ fieldModifiers,
          w.toList.all (fun c => decide (c ∉ ['"', '\'', ':', '\n'])) = true := by decide
      have hall : ∀ w ∈ f.words ++ ["As"], Unmarked w.toList :=
        f.forall_mem_words (fun word => .of_all (by cases word <;> decide))
          (fun w hw => .of_all (hmodifiers w hw)) (.of_bare fun c hc => f.name.isName.bare hc)
          (.of_all (by decide))
      exact hall w (List.mem_append_left _ hw)
    · exact unmarked_cons.mpr ⟨by decide, type.unmarked⟩

/-- In a type, the text of a field is read as a field. -/
theorem statementStep_field {t : Document} {s : State} (line : Nat) (hs : s.Outside)
    (htype : s.openType?.isSome = true) :
    ∃ found, statementStep t s line (fieldText f type) =
      fieldStep t s f.name.text found line := by
  have htext := toList_fieldText f type
  have hopening : (fieldText f type).toList = f.word.text.toList ++ ' ' ::
      (spaced (f.modifiers ++ [f.name.text]) ++ ("As".toList ++ ' ' :: type.text.toList)) := by
    rw [htext, FieldHead.words, spaced, List.append_assoc, List.cons_append]
  have hword : f.word.text ∈ openingWords := by cases f.word <;> decide
  have hne : f.word.text ≠ "Namespace" := by cases f.word <;> decide
  obtain ⟨m, hm, hname⟩ := exists_find?_fieldHead f htext type.ne_nil
    fun hmem => type.unmarked _ hmem (by decide)
  refine ⟨m.group 2, ?_⟩
  rw [statementStep_head hword hopening hs, outerStep, find?_importHead_head hword hopening,
    find?_namespaceHead_head hword hopening hne, find?_typeHead_field f htext,
    find?_heritage_head hword hopening, find?_methodHead_field f htext,
    find?_propertyHead_field f htext, hm]
  dsimp only
  rw [if_pos htype, hname]

end Reading

end CodeSurvey.VisualBasic
