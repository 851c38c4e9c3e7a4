import CodeSurvey.Frontend.VisualBasic
import CodeSurvey.Proofs.Regex.Readings

/-!
# Words at the head of Visual Basic declarations

The words at the head of a declaration have blanks after them, so that they are recognised as whole
words only. The reader takes the modifiers that come first. Wherever it stops taking them, it goes on
at the start of a word, and a declaration of one sort is not found if none of the words at the head
begins it.
-/

namespace CodeSurvey.VisualBasic

open Regex

/-! ## Whole words -/

/-- No word has blanks in it, in any case. -/
def IsVocabulary (words : List String) : Prop :=
  ∀ w ∈ words, (w.toList.map Text.foldCase).all (fun c => !Text.isBlank c) = true

instance (words : List String) : Decidable (IsVocabulary words) :=
  inferInstanceAs (Decidable (∀ w ∈ words, _ = true))

/-- A word is none of some others, in any case. -/
def Differs (words : List String) (w : String) : Prop :=
  ∀ v ∈ words, w.toList.map Text.foldCase ≠ v.toList.map Text.foldCase

instance (words : List String) (w : String) : Decidable (Differs words w) :=
  inferInstanceAs (Decidable (∀ v ∈ words, _ ≠ _))

theorem Differs.mono {words more : List String} {w : String} (h : Differs more w)
    (hwords : ∀ v ∈ words, v ∈ more) : Differs words w := fun v hv => h v (hwords v hv)

/-- A word that is not empty and has no blanks in it. -/
def IsChunk (w : String) : Prop := w.toList ≠ [] ∧ w.toList.all (fun c => !Text.isBlank c) = true

instance (w : String) : Decidable (IsChunk w) := inferInstanceAs (Decidable (_ ∧ _))

theorem IsChunk.bare {w : String} (h : IsChunk w) {c : Char} (hc : c ∈ w.toList) :
    Text.isBlank c = false := by
  simpa using List.all_eq_true.mp h.2 c hc

section Reading

variable {words : List String} {w : String} {s t u : Cursor} {rest : List Char}

/-- Blanks have no case. -/
theorem foldCase_of_isBlank {c : Char} (h : Text.isBlank c = true) : Text.foldCase c = c := by
  revert h
  refine Text.caseVariants_cases (R := fun c => Text.isBlank c = true → Text.foldCase c = c)
    (by decide) (by decide) (by decide) (fun c hself _ => ?_) c
  rw [Text.foldCase, hself, List.headD_cons]

/-- What is read as a word in any case is that word up to case. -/
theorem exists_word_of_reads (h : Reads (oneOfAnyCase words) s t) :
    ∃ v ∈ words, ∃ xs, s.rest = xs ++ t.rest ∧
      xs.map Text.foldCase = v.toList.map Text.foldCase := by
  obtain ⟨r, hr, hread⟩ := reads_any.mp h
  obtain ⟨v, hv, rfl⟩ := List.mem_map.mp hr
  obtain ⟨xs, hxs, hrest, -⟩ := (spans_classes _ v.toList).of_reads hread
  refine ⟨v, hv, xs, hrest, ?_⟩
  clear hread hrest hr
  generalize v.toList = cs at hxs
  induction hxs with
  | nil => rfl
  | @cons c x cs xs hx hxs ih =>
    have hmem : c ∈ Text.caseVariants x := by simpa [CharClass.has] using hx
    rw [List.map_cons, List.map_cons, ih, Text.foldCase_eq_of_mem hmem]

/-- Two texts up to the first blank. -/
theorem eq_of_append_blank {xs ys us vs : List Char} {b c : Char}
    (hxs : ∀ x ∈ xs, Text.isBlank x = false) (hys : ∀ y ∈ ys, Text.isBlank y = false)
    (hb : Text.isBlank b = true) (hc : Text.isBlank c = true)
    (h : xs ++ b :: us = ys ++ c :: vs) : xs = ys ∧ b :: us = c :: vs := by
  induction xs generalizing ys with
  | nil =>
    cases ys with
    | nil => exact ⟨rfl, h⟩
    | cons y ys =>
      obtain rfl := (List.cons_eq_cons.mp h).1
      rw [hys _ List.mem_cons_self] at hb
      cases hb
  | cons x xs ih =>
    obtain ⟨hx, hxs⟩ := List.forall_mem_cons.mp hxs
    cases ys with
    | nil =>
      obtain rfl := (List.cons_eq_cons.mp h).1
      rw [hx] at hc
      cases hc
    | cons y ys =>
      obtain ⟨rfl, hmore⟩ := List.cons_eq_cons.mp h
      obtain ⟨rfl, hrest⟩ := ih hxs (List.forall_mem_cons.mp hys).2 hmore
      exact ⟨rfl, hrest⟩

theorem exists_blanks_of_reads_gap (h : Reads gap s t) :
    ∃ b bs, s.rest = b :: (bs ++ t.rest) ∧ Text.isBlank b = true ∧
      ∀ c ∈ bs, Text.isBlank c = true := by
  obtain ⟨xs, ⟨ys, bs, rfl, ⟨b, hb, rfl⟩, hbs⟩, hrest, -⟩ :=
    ((spans_set .blank).seq (spans_many .blank)).of_reads h
  exact ⟨b, bs, hrest, hb, hbs⟩

/-- A word with blanks after it takes up all that stands before the first blank. -/
theorem exists_whole_word {t' : Cursor} (hwords : IsVocabulary words)
    (hword : Reads (oneOfAnyCase words) s t) (hsame : t'.rest = t.rest) (hgap : Reads gap t' u)
    (hw : IsChunk w) (hrest : s.rest = w.toList ++ ' ' :: rest) :
    ¬ Differs words w ∧ ((∀ c ∈ rest.head?, Text.isBlank c = false) → u.rest = rest) := by
  obtain ⟨v, hv, xs, hxs, hfold⟩ := exists_word_of_reads hword
  obtain ⟨b, bs, hbs, hb, hblanks⟩ := exists_blanks_of_reads_gap hgap
  have hbare : ∀ x ∈ xs, Text.isBlank x = false := by
    intro x hx
    by_contra hblank
    rw [Bool.not_eq_false] at hblank
    have hmem : x ∈ v.toList.map Text.foldCase := by
      rw [← hfold, ← foldCase_of_isBlank hblank]
      exact List.mem_map_of_mem hx
    have hnone := List.all_eq_true.mp (hwords v hv) x hmem
    rw [hblank] at hnone
    cases hnone
  rw [hrest, ← hsame, hbs] at hxs
  obtain ⟨rfl, htail⟩ := eq_of_append_blank (fun c hc => hw.bare hc) hbare (by decide) hb hxs
  refine ⟨fun hdiffers => hdiffers v hv hfold, fun hhead => ?_⟩
  have hafter := (List.cons_eq_cons.mp htail).2
  cases bs with
  | nil => exact hafter.symm
  | cons c bs =>
    have hc := hhead c (by rw [hafter]; rfl)
    rw [hblanks c List.mem_cons_self] at hc
    cases hc

section Other

variable (hw : IsChunk w) (hdiffers : Differs words w) (hwords : IsVocabulary words)
  (hrest : s.rest = w.toList ++ ' ' :: rest)

include hw hdiffers hwords hrest

/-- Where another word stands, no word with a blank after it is read. -/
theorem not_reads_word {rs : List Regex} : ¬ Reads (all (oneOfAnyCase words :: gap :: rs)) s u := by
  intro h
  obtain ⟨t, hword, h⟩ := reads_all_cons.mp h
  obtain ⟨v, hgap, -⟩ := reads_all_cons.mp h
  exact (exists_whole_word hwords hword rfl hgap hw hrest).1 hdiffers

theorem not_reads_group_word {rs : List Regex} {n : Nat} :
    ¬ Reads (all (group n (oneOfAnyCase words) :: gap :: rs)) s u := by
  intro h
  obtain ⟨t, hgroup, h⟩ := reads_all_cons.mp h
  obtain ⟨t', hword, rfl⟩ := reads_group.mp hgroup
  obtain ⟨v, hgap, -⟩ := reads_all_cons.mp h
  have hsame : (t'.capture s n).rest = t'.rest := rfl
  exact (exists_whole_word hwords hword hsame hgap hw hrest).1 hdiffers

end Other

/-- A repetition stops or goes on after one round. -/
theorem reads_many {r : Regex} :
    Reads (many r) s u ↔ u = s ∨ ∃ t, Reads r s t ∧ s.index < t.index ∧ Reads (many r) t u := by
  constructor
  · rintro (_ | _ | _ | _ | _ | _ | _ | ⟨h, hlt, hmore⟩)
    · exact .inl rfl
    · exact .inr ⟨_, h, hlt, hmore⟩
  · rintro (rfl | ⟨t, h, hlt, hmore⟩)
    · exact .stop
    · exact .round h hlt hmore

end Reading

/-! ## Rows of words -/

/-- Words with a space after each. -/
def spaced : List String → List Char
  | [] => []
  | w :: ws => w.toList ++ ' ' :: spaced ws

theorem spaced_append (ws vs : List String) : spaced (ws ++ vs) = spaced ws ++ spaced vs := by
  induction ws with
  | nil => rfl
  | cons w ws ih => simp [spaced, ih]

theorem length_le_spaced (ws : List String) : ws.length ≤ (spaced ws).length := by
  induction ws with
  | nil => rfl
  | cons w ws ih =>
    simp only [spaced, List.length_append, List.length_cons]
    omega

section Rows

variable {bound : Nat} {s t : Cursor} {vocabulary ws : List String} {rest : List Char}

theorem head_spaced (hws : ∀ w ∈ ws, IsChunk w) (hrest : ∀ c ∈ rest.head?, Text.isBlank c = false) :
    ∀ c ∈ (spaced ws ++ rest).head?, Text.isBlank c = false := by
  cases ws with
  | nil => exact hrest
  | cons w ws =>
    have hw := hws w List.mem_cons_self
    intro c hc
    rw [spaced, List.append_assoc, List.head?_append_of_ne_nil _ hw.1] at hc
    exact hw.bare (List.mem_of_mem_head? hc)

/-- Rounds go on over a row of words as long as there are any. -/
theorem takesRounds_spaced {rounds : Nat} (hws : ∀ w ∈ ws, IsChunk w ∧
      vocabulary.find? (fun v => agree v.toList w.toList) = some w)
    (hrest : s.rest = spaced ws ++ rest) (hhead : ∀ c ∈ rest.head?, Text.isBlank c = false)
    (hfails : Fails bound (all [oneOfAnyCase vocabulary, gap]) (s.past (spaced ws)))
    (hrounds : ws.length ≤ rounds) (hbound : 1 ≤ bound) :
    TakesRounds bound rounds (all [oneOfAnyCase vocabulary, gap]) s (s.past (spaced ws)) := by
  induction ws generalizing s rounds with
  | nil => exact .stop hfails rounds
  | cons w ws ih =>
    obtain ⟨⟨hchunk, hfind⟩, hws⟩ := List.forall_mem_cons.mp hws
    obtain ⟨rounds, rfl⟩ : ∃ n, rounds = n + 1 := Nat.exists_eq_add_one.mpr
      (Nat.lt_of_lt_of_le (Nat.succ_pos _) hrounds)
    rw [spaced, List.append_assoc] at hrest
    have hgapped : (s.past w.toList).rest = [' '] ++ (spaced ws ++ rest) := Cursor.rest_past hrest
    have hnext : ((s.past w.toList).past [' ']).rest = spaced ws ++ rest :=
      Cursor.rest_past hgapped
    have hpast : s.past (spaced (w :: ws)) = ((s.past w.toList).past [' ']).past (spaced ws) := by
      rw [spaced, Cursor.past_append]
      rfl
    have hword : Takes bound (oneOfAnyCase vocabulary) s (s.past w.toList) :=
      Takes.oneOfAnyCase hrest hfind rfl
    have hgap : Takes bound gap (s.past w.toList) ((s.past w.toList).past [' ']) :=
      Takes.plus_set (by simp) hgapped (List.forall_mem_singleton.mpr rfl)
        (head_spaced (fun v hv => (hws v hv).1) hhead) hbound
    rw [hpast] at hfails ⊢
    refine .next (hword.seq (hgap.seq (Takes.empty _))) ?_
      (ih hws hnext hfails (Nat.le_of_succ_le_succ hrounds))
    simp only [Cursor.index_past, List.length_singleton]
    omega

/-- The words that may stand before a declaration. -/
def modifierWords : List String :=
  ["Public", "Private", "Protected", "Friend", "Partial", "MustInherit", "NotInheritable", "Shared",
    "Shadows", "Overrides", "Overridable", "NotOverridable", "MustOverride", "Overloads", "Async",
    "Iterator", "ReadOnly", "WriteOnly", "Default", "Static", "WithEvents", "Const"]

theorem isChunk_of_mem_modifierWords {w : String} (h : w ∈ modifierWords) : IsChunk w := by
  have hall : ∀ w ∈ modifierWords, IsChunk w := by decide
  exact hall w h

/-- Modifiers are taken up to a word that is none. -/
theorem takes_modifiers (hws : ∀ w ∈ ws, w ∈ modifierWords) (hrest : s.rest = spaced ws ++ rest)
    (hhead : ∀ c ∈ rest.head?, Text.isBlank c = false)
    (hfails : Fails bound (oneOfAnyCase modifierWords) (s.past (spaced ws)))
    (hlength : ws.length ≤ bound) (hbound : 1 ≤ bound) :
    Takes bound modifiers s (s.past (spaced ws)) := by
  have hknown : ∀ w ∈ modifierWords, IsChunk w ∧
      modifierWords.find? (fun v => agree v.toList w.toList) = some w := by decide
  exact (takesRounds_spaced (fun w hw => hknown w (hws w hw)) hrest hhead (hfails.seq _) hlength
    hbound).many

end Rows

/-! ## Declarations that are not found -/

section Absent

variable {s t : Cursor} {ws : List String} {last text : String} {rest : List Char}
  (hchunks : ∀ w ∈ ws ++ [last], IsChunk w) (hlast : Differs modifierWords last)

include hchunks hlast

/-- Reading modifiers from a row of words stops before one of them. -/
theorem exists_chunk_of_reads (hrest : s.rest = spaced ws ++ (last.toList ++ ' ' :: rest))
    (h : Reads modifiers s t) : ∃ w ∈ ws ++ [last], ∃ more, t.rest = w.toList ++ ' ' :: more := by
  have hvocabulary : IsVocabulary modifierWords := by decide
  -- the modifiers that are read are the first words of the row
  induction ws generalizing s with
  | nil =>
    rcases reads_many.mp h with rfl | ⟨u, hround, -, -⟩
    · exact ⟨last, List.mem_singleton_self last, rest, hrest⟩
    · have hlastChunk := hchunks last (by simp)
      exact absurd hround (not_reads_word hlastChunk hlast hvocabulary hrest)
  | cons w ws ih =>
    obtain ⟨hw, hws⟩ := List.forall_mem_cons.mp hchunks
    rw [spaced, List.append_assoc] at hrest
    rcases reads_many.mp h with rfl | ⟨u, hround, -, hmore⟩
    · exact ⟨w, by simp, _, hrest⟩
    · obtain ⟨v, hword, hgap⟩ := reads_all_cons.mp hround
      obtain ⟨u', hgap, hend⟩ := reads_all_cons.mp hgap
      obtain rfl := reads_all_nil.mp hend
      have hhead : ∀ c ∈ (spaced ws ++ (last.toList ++ ' ' :: rest)).head?,
          Text.isBlank c = false := by
        refine head_spaced (fun v hv => hws v (by simp [hv])) fun c hc => ?_
        have hchunk := hws last (by simp)
        rw [List.head?_append_of_ne_nil _ hchunk.1] at hc
        exact hchunk.bare (List.mem_of_mem_head? hc)
      have hu := (exists_whole_word hvocabulary hword rfl hgap hw hrest).2 hhead
      obtain ⟨v, hv, hvrest⟩ := ih hws hu hmore
      exact ⟨v, List.mem_cons_of_mem w hv, hvrest⟩

variable (htext : text.toList = spaced ws ++ (last.toList ++ ' ' :: rest))

include htext

/-- A head is not found if none of the words can be what follows its modifiers. -/
theorem find?_head_eq_none {es : List Regex} (hnone : ∀ w ∈ ws ++ [last], ∀ u t more,
      u.rest = w.toList ++ ' ' :: more → ¬ Reads (all es) u t) :
    (all (start :: group 1 modifiers :: es)).find? text = none := by
  refine Fails.find? (Fails.of_not_reads fun t h => ?_)
  obtain ⟨u, hgroup, h⟩ := reads_all_cons.mp h
  obtain ⟨v, hmodifiers, rfl⟩ := reads_group.mp hgroup
  have hrest : (Cursor.ofChars text.toList).rest = _ := htext
  obtain ⟨w, hw, more, hv⟩ := exists_chunk_of_reads hchunks hlast hrest hmodifiers
  exact hnone w hw (v.capture _ 1) t more hv h

theorem find?_typeHead_of_differs (hfree : ∀ w ∈ ws ++ [last],
      Differs ["Class", "Module", "Structure", "Interface", "Enum"] w) :
    typeHead.find? text = none :=
  find?_head_eq_none hchunks hlast htext fun w hw _ _ _ hrest =>
    not_reads_group_word (hchunks w hw) (hfree w hw) (by decide) hrest

theorem find?_methodHead_of_differs (hfree : ∀ w ∈ ws ++ [last],
      Differs ["Declare", "Sub", "Function"] w) : methodHead.find? text = none := by
  refine find?_head_eq_none hchunks hlast htext fun w hw u t more hrest h => ?_
  obtain ⟨v, hdeclare, h⟩ := reads_all_cons.mp h
  rcases hdeclare with _ | _ | _ | _ | hdeclare | ⟨⟨⟩⟩
  · have hword : Reads (all (oneOfAnyCase ["Declare"] :: gap :: [many Regex.word, blanks])) u v :=
      hdeclare
    exact not_reads_word (hchunks w hw) ((hfree w hw).mono (by simp)) (by decide) hrest hword
  · exact not_reads_group_word (hchunks w hw) ((hfree w hw).mono (by simp)) (by decide) hrest h

theorem find?_propertyHead_of_differs (hfree : ∀ w ∈ ws ++ [last], Differs ["Property"] w) :
    propertyHead.find? text = none :=
  find?_head_eq_none hchunks hlast htext fun w hw _ _ _ hrest =>
    not_reads_word (hchunks w hw) (hfree w hw) (by decide) hrest

end Absent

end CodeSurvey.VisualBasic
