import CodeSurvey.Frontend.Dart
import CodeSurvey.Proofs.VisualBasic.Heads

/-!
# Heads of Dart declarations

A line that holds nothing but the head of a class, a field of type `int` or a method without
parameters and result, under any indentation, is recognised for what it is, and its name is found. Two
names are not: a class with the name `on` is taken for an extension without one, and `operator` is
taken off the start of the name of a method unless nothing is left.
-/

namespace CodeSurvey.Dart

open Code (Listing)
open VisualBasic (Identifier Margin)

/-! ## Names and heads -/

def reservedWords : List String :=
  ["assert", "break", "case", "catch", "class", "const", "continue", "default", "do", "else", "enum",
    "extends", "false", "final", "finally", "for", "if", "in", "is", "new", "null", "rethrow",
    "return", "super", "switch", "this", "throw", "true", "try", "var", "void", "while", "with"]

/-- A name of ASCII letters, digits and low lines that is no reserved word. -/
structure Name extends Identifier where
  unreserved : text ∉ reservedWords

/-- What a head declares. -/
inductive Form where
  | type
  | field
  | method
  deriving DecidableEq

namespace Form

def word : Form → String
  | type => "class"
  | field => "int"
  | method => "void"

def tail : Form → String
  | type => " \x7b"
  | field => ";"
  | method => "() \x7b"

def head (f : Form) (name : Name) : String := f.word ++ " " ++ name.text ++ f.tail

theorem toList_head (f : Form) (name : Name) :
    (f.head name).toList = f.word.toList ++ ' ' :: (name.text.toList ++ f.tail.toList) := by
  simp [head]

end Form

/-! ## Lines that are heads -/

def codeOf (line : String) : String := Text.trim (Code.codeLine "//" line)

/-- A text without blanks at its ends, quotes and slashes. -/
structure Plain (text : String) : Prop where
  head : ∀ c ∈ text.toList.head?, Text.isBlank c = false
  last : ∀ c ∈ text.toList.getLast?, Text.isBlank c = false
  bare : ∀ c ∈ text.toList, c ∉ ['"', '\'', '/']

theorem codeOf_indented (margin : Margin) {text : String} (h : Plain text) :
    codeOf (margin.text ++ text) = text := by
  refine VisualBasic.trim_codeLine_indented .slashes margin h.head h.last fun c hc => ?_
  simpa [Code.Marking.quotes, Code.Marking.mark, and_assoc] using h.bare c hc

theorem trim_indented (margin : Margin) {text : String} (h : Plain text) :
    Text.trim (margin.text ++ text) = text :=
  Text.trimWhere_append (List.all_eq_true.mp margin.blank) h.head h.last

/-- No blank, and none of the characters that stand around strings, comments, parameters and blocks. -/
def IsBare (c : Char) : Prop :=
  Text.isBlank c = false ∧ c ∉ ['"', '\'', '/', '(', '.', ';', '\x7b', '\x7d']

instance (c : Char) : Decidable (IsBare c) :=
  inferInstanceAs (Decidable (Text.isBlank c = false ∧
    c ∉ ['"', '\'', '/', '(', '.', ';', '\x7b', '\x7d']))

theorem Name.bare_of_mem (name : Name) {c : Char} (h : c ∈ name.text.toList) : IsBare c := by
  have hascii : ∀ n < 128, ((Char.ofNat n).isAlphanum || Char.ofNat n == '_') = true →
      IsBare (Char.ofNat n) := by decide
  have hc := hascii c.toNat (name.lt_of_mem h)
  rw [Char.ofNat_toNat] at hc
  exact hc (List.all_eq_true.mp name.ascii c h)

namespace Form

variable (f : Form) (name : Name)

theorem bare_word {c : Char} (h : c ∈ f.word.toList) : IsBare c := by
  have hall : f.word.toList.all (fun c => decide (IsBare c)) = true := by cases f <;> decide
  exact of_decide_eq_true (List.all_eq_true.mp hall c h)

theorem word_ne_nil : f.word.toList ≠ [] := by cases f <;> decide

theorem plain_head : Plain (f.head name) := by
  constructor
  · intro c hc
    rw [f.toList_head, List.head?_append_of_ne_nil _ f.word_ne_nil] at hc
    exact (f.bare_word (List.mem_of_mem_head? hc)).1
  · have hlast : ∃ c, f.tail.toList.getLast? = some c ∧ Text.isBlank c = false := by
      cases f
      · exact ⟨'\x7b', by decide⟩
      · exact ⟨';', by decide⟩
      · exact ⟨'\x7b', by decide⟩
    obtain ⟨d, hd, hblank⟩ := hlast
    intro c hc
    rw [f.toList_head, ← List.cons_append, List.getLast?_append, List.getLast?_append, hd] at hc
    obtain rfl : d = c := by simpa using hc
    exact hblank
  · have htail : f.tail.toList.all (fun c => decide (c ∉ ['"', '\'', '/'])) = true := by
      cases f <;> decide
    have hbare {c : Char} (hc : IsBare c) : c ∉ ['"', '\'', '/'] := fun hmem =>
      hc.2 (List.mem_append_left ['(', '.', ';', '\x7b', '\x7d'] hmem)
    intro c hc
    rw [f.toList_head, List.mem_append, List.mem_cons, List.mem_append] at hc
    rcases hc with hc | rfl | hc | hc
    · exact hbare (f.bare_word hc)
    · decide
    · exact hbare (name.bare_of_mem hc)
    · exact of_decide_eq_true (List.all_eq_true.mp htail c hc)

end Form

/-! ## What a head is not -/

section Recognition

open Regex

variable (f : Form) (name : Name)

theorem not_prefix_head {w : String} (h : clash w.toList (f.word.toList ++ [' ']) = true) :
    ¬ w.toList <+: (f.head name).toList := by
  rw [f.toList_head, ← List.singleton_append, ← List.append_assoc]
  exact not_prefix_of_clash h _

theorem find?_metadataMark_head : metadataMark.find? (f.head name) = none := by
  rw [Option.eq_none_iff_forall_ne_some]
  intro m hm
  exact not_prefix_head f name (by cases f <;> decide) (prefix_of_find? hm).1

theorem takeAnnotations_head (fuel : Nat) :
    takeAnnotations fuel (f.head name) = ([], f.head name) := by
  cases fuel with
  | zero => rfl
  | succ fuel => rw [takeAnnotations, find?_metadataMark_head]

theorem find?_importHead_head : importHead.find? (f.head name) = none := by
  have hfails : Fails (f.head name).length (oneOf ["import", "export"])
      (Cursor.ofChars (f.head name).toList) := by
    apply Fails.oneOf
    intro w hw
    refine not_prefix_head f name ?_
    revert w
    cases f <;> decide
  exact (hfails.seq _).find?

/-- Before the word of a head stand no other words. -/
theorem only_wordsBefore {words : List String} {bound : Nat} {s : Cursor}
    (hrest : s.rest = (f.head name).toList)
    (h : ∀ w ∈ words, clash w.toList (f.word.toList ++ [' ']) = true) :
    Only bound (wordsBefore words) s s := by
  refine Only.many (Fails.seq (Fails.oneOf ?_) _)
  intro w hw
  rw [hrest]
  exact not_prefix_head f name (h w hw)

/-- Only the head of a class is the head of a type. -/
theorem find?_typeHead_head (hf : f ≠ .type) : typeHead.find? (f.head name) = none := by
  let s := Cursor.ofChars (f.head name).toList
  have hbefore : Only (f.head name).length
      (group 1 (wordsBefore ["abstract", "base", "final", "sealed", "interface", "mixin"])) s
      (s.capture s 1) := by
    refine (only_wordsBefore f name rfl ?_).group 1
    cases f <;> decide
  have hword : Fails (f.head name).length (oneOf ["class", "mixin", "enum", "extension"])
      (s.capture s 1) := by
    apply Fails.oneOf
    intro w hw
    refine not_prefix_head f name ?_
    revert w
    cases f with
    | type => exact absurd rfl hf
    | field | method => decide
  exact (hbefore.fails_seq ((hword.group 2).seq _)).find?

/-- A blank after the name follows the parentheses. -/
theorem getLast?_of_tail_eq (hf : f ≠ .type) {b : Char} (hb : Text.isBlank b = true)
    {ds zs : List Char} (h : f.tail.toList = ds ++ b :: zs) : ds.getLast? = some ')' := by
  cases f with
  | type => exact absurd rfl hf
  | field =>
    have hlist : [';'] = ds ++ b :: zs := h
    have hmem : b ∈ [';'] := hlist ▸ List.mem_append_right _ List.mem_cons_self
    rw [List.mem_singleton.mp hmem] at hb
    exact absurd hb (by decide)
  | method =>
    have hlist : ['(', ')', ' ', '\x7b'] = ds ++ b :: zs := h
    rcases ds with _ | ⟨d, _ | ⟨d', _ | ⟨d'', ds⟩⟩⟩
    · obtain ⟨rfl, -⟩ := List.cons_eq_cons.mp hlist
      exact absurd hb (by decide)
    · obtain ⟨-, rfl, -⟩ := by simpa using hlist
      exact absurd hb (by decide)
    · obtain ⟨-, rfl, -⟩ := by simpa using hlist
      rfl
    · have hrest : ['\x7b'] = ds ++ b :: zs := congrArg (List.drop 3) hlist
      have hmem : b ∈ ['\x7b'] := hrest ▸ List.mem_append_right _ List.mem_cons_self
      rw [List.mem_singleton.mp hmem] at hb
      exact absurd hb (by decide)

/-- Blanks stand in a head after its word and after its parentheses only, so that no getter is
meant. -/
theorem not_suffix_head (hf : f ≠ .type) {b : Char} (hb : Text.isBlank b = true)
    (zs : List Char) : ¬ "get".toList ++ b :: zs <:+ (f.head name).toList := by
  rintro ⟨before, h⟩
  have hword {c : Char} (hc : c ∈ f.word.toList) : c ≠ b := by
    rintro rfl
    rw [(f.bare_word hc).1] at hb
    cases hb
  have hget : ¬ "get".toList <:+ f.word.toList := by cases f <;> decide
  rw [← List.append_assoc, f.toList_head] at h
  rcases List.append_eq_append_iff.mp h with ⟨cs, hcs, hrest⟩ | ⟨cs, hcs, hrest⟩
  · cases cs with
    | nil => exact hget ⟨before, by rw [hcs, List.append_nil]⟩
    | cons c cs =>
      have hc : c = b := (List.cons_eq_cons.mp hrest).1.symm
      exact hword (hcs ▸ List.mem_append_right _ List.mem_cons_self) hc
  · cases cs with
    | nil => exact hget ⟨before, by rw [hcs, List.append_nil]⟩
    | cons c cs =>
      have hafter : name.text.toList ++ f.tail.toList = cs ++ b :: zs :=
        (List.cons_eq_cons.mp hrest).2
      rcases List.append_eq_append_iff.mp hafter with ⟨ds, rfl, htail⟩ | ⟨ds, hds, htail⟩
      · have hlast := congrArg List.getLast? hcs
        rw [← List.cons_append, List.getLast?_append, List.getLast?_append, List.getLast?_append,
          getLast?_of_tail_eq f hf hb htail] at hlast
        simp at hlast
      · cases ds with
        | nil =>
          have hfirst : some b = f.tail.toList.head? := congrArg List.head? htail
          have hblank : ∀ c ∈ f.tail.toList.head?, Text.isBlank c = false := by
            cases f with
            | type => exact absurd rfl hf
            | field | method => simp [Form.tail]; decide
          rw [hblank b (hfirst ▸ rfl)] at hb
          cases hb
        | cons d ds =>
          obtain rfl : b = d := (List.cons_eq_cons.mp htail).1
          have hmem : b ∈ name.text.toList := hds ▸ List.mem_append_right _ List.mem_cons_self
          rw [(name.bare_of_mem hmem).1] at hb
          cases hb

theorem find?_getterHead_head (hf : f ≠ .type) : getterHead.find? (f.head name) = none := by
  refine Fails.find? (Fails.of_not_reads fun _ h => ?_)
  obtain ⟨t, hbefore, h⟩ := reads_all_cons.mp h
  obtain ⟨u, htype, h⟩ := reads_all_cons.mp h
  obtain ⟨v, hget, h⟩ := reads_all_cons.mp h
  obtain ⟨w, hgap, -⟩ := reads_all_cons.mp h
  obtain ⟨_, rfl, hu, -⟩ := (spans_lit "get").of_reads hget
  obtain ⟨bs, ⟨hpos, hbs⟩, hv, -⟩ := (spans_atLeast 1 .blank).of_reads hgap
  have hsuffix := htype.suffix.trans hbefore.suffix
  cases bs with
  | nil => cases hpos
  | cons b bs =>
    rw [hu, hv] at hsuffix
    exact not_suffix_head f name hf (hbs b List.mem_cons_self) _ hsuffix

/-- A head without parentheses is none of a method. -/
theorem find?_methodHead_field : methodHead.find? (Form.field.head name) = none := by
  rw [Option.eq_none_iff_forall_ne_some]
  intro m hm
  have hrequires : methodHead.Requires ["("] := by decide
  obtain ⟨w, hw, hoccurs⟩ := hrequires.occurs_of_find? hm
  obtain rfl := List.mem_singleton.mp hw
  have hmem : '(' ∈ (Form.field.head name).toList := hoccurs.subset List.mem_cons_self
  rw [Form.toList_head, List.mem_append, List.mem_cons, List.mem_append] at hmem
  rcases hmem with hmem | hmem | hmem | hmem
  · exact absurd hmem (by decide)
  · exact absurd hmem (by decide)
  · exact (name.bare_of_mem hmem).2 (by decide)
  · exact absurd hmem (by decide)

/-! ## What a head is -/

variable {bound : Nat} {s : Cursor}

theorem head_eq {p : Char → Bool} {c : Char} {cs : List Char} {b : Bool} (h : p c = b) :
    ∀ d ∈ (c :: cs).head?, p d = b := by
  intro d hd
  obtain rfl : c = d := by simpa using hd
  exact h

/-- A word before a blank is the type of what follows. -/
theorem takes_typed {ws ys : List Char} (hne : ws ≠ [])
    (hws : ∀ c ∈ ws, Text.isWord c = true ∧ Text.isBlank c = false)
    (hrest : s.rest = ws ++ ' ' :: ys) (hys : ∀ c ∈ ys.head?, Text.isBlank c = false)
    (hbound : s.rest.length ≤ bound) (n : Nat) :
    ∃ t, Takes bound (all [group n typeText, gap]) s t ∧ t.rest = ys ∧
      t.groups = (n, ⟨s.index, ws⟩) :: s.groups ∧ t.rest.length ≤ bound := by
  have hlength : ws.length + 1 + ys.length ≤ bound := by
    rw [hrest] at hbound
    simpa [Nat.add_assoc, Nat.add_comm, Nat.add_left_comm] using hbound
  have hafter : ((s.past ws).capture s n).rest = [' '] ++ ys := Cursor.rest_past hrest
  have hgap : Takes bound (all [gap]) ((s.past ws).capture s n)
      (((s.past ws).capture s n).past [' ']) := by
    refine (Takes.plus_set (c := .blank) (by simp) hafter ?_ hys (by simp; omega)).seq
      (Takes.empty _)
    intro x hx
    rw [List.mem_singleton.mp hx]
    rfl
  have hend : (((s.past ws).capture s n).past [' ']).rest = ys := Cursor.rest_past hafter
  refine ⟨_, Takes.group_lazy hne hrest ?_ (by omega) ?_ hgap, hend, ?_, by rw [hend]; omega⟩
  · intro x hx
    simp [CharClass.anyOf, CharClass.has, (hws x hx).1]
  · -- before the end of the word there is no blank
    rintro p - ⟨qs, rfl⟩ hproper
    refine Fails.seq (Fails.plus_set ?_) _
    have hqs : (s.past p).rest = qs ++ ' ' :: ys :=
      Cursor.rest_past (by rw [hrest, List.append_assoc])
    intro x hx
    change x ∈ (s.past p).rest.head? at hx
    cases qs with
    | nil => exact absurd (List.append_nil p).symm hproper
    | cons q qs =>
      rw [hqs] at hx
      obtain rfl : q = x := by simpa using hx
      exact (hws q (by simp)).2
  · rw [Cursor.groups_past, Cursor.capture_past hrest]

/-- The name of a head is captured as a whole. -/
theorem takes_name {ys : List Char} (hrest : s.rest = name.text.toList ++ ys)
    (hys : ∀ c ∈ ys.head?, Text.isWord c = false) (hbound : s.rest.length ≤ bound) (n : Nat) :
    ∃ t, Takes bound (group n (plus word)) s t ∧ t.rest = ys ∧
      t.groups = (n, ⟨s.index, name.text.toList⟩) :: s.groups := by
  have hlength : name.text.toList.length ≤ bound := by
    rw [hrest, List.length_append] at hbound
    omega
  refine ⟨_, (Takes.plus_set (c := .word) name.ne_nil hrest (fun x hx => name.isWord_of_mem hx) hys
    hlength).group n, Cursor.rest_past hrest, ?_⟩
  rw [Cursor.capture_past hrest]

theorem only_blanks (h : ∀ c ∈ s.rest.head?, Text.isBlank c = false) : Only bound blanks s s :=
  Only.many (Fails.set h)

theorem Form.isWord_word {c : Char} (h : c ∈ f.word.toList) :
    Text.isWord c = true ∧ Text.isBlank c = false := by
  refine ⟨?_, (f.bare_word h).1⟩
  have hall : f.word.toList.all Text.isWord = true := by cases f <;> decide
  exact List.all_eq_true.mp hall c h

theorem Name.not_blank_head (ys : List Char) :
    ∀ c ∈ (name.text.toList ++ ys).head?, Text.isBlank c = false := by
  intro c hc
  rw [List.head?_append_of_ne_nil _ name.ne_nil] at hc
  exact (name.bare_of_mem (List.mem_of_mem_head? hc)).1

/-- A field is recognised by its head. -/
theorem find?_fieldHead_head :
    ∃ m, fieldHead.find? (Form.field.head name) = some m ∧ m.group 3 = name.text := by
  let s := Cursor.ofChars (Form.field.head name).toList
  have hrest : s.rest = "int".toList ++ ' ' :: (name.text.toList ++ [';']) :=
    Form.field.toList_head name
  have hbefore : Only (Form.field.head name).length
      (group 1 (wordsBefore ["static", "final", "const", "late", "var", "covariant", "external"])) s
      (s.capture s 1) :=
    (only_wordsBefore .field name rfl (by decide)).group 1
  have hlength : (s.capture s 1).rest.length ≤ (Form.field.head name).length :=
    String.length_toList.le
  obtain ⟨t, htype, ht, hgroups, hbound⟩ := takes_typed (s := s.capture s 1) (by decide)
    (fun c hc => Form.field.isWord_word hc) hrest (name.not_blank_head _) hlength 2
  obtain ⟨u, hname, hu, hgroups'⟩ := takes_name name ht (head_eq rfl) hbound 3
  have hblanks : Only (Form.field.head name).length blanks u u :=
    only_blanks (by rw [hu]; exact head_eq rfl)
  have hvalue : Only (Form.field.head name).length
      (opt (all [lit "=", many (set (.notChars ";"))])) u u :=
    Only.opt ((Fails.lit (by rw [hu]; decide)).seq _)
  have hend : Only (Form.field.head name).length (lit ";") u (u.past [';']) :=
    Only.lit (show u.rest = ";".toList ++ [] from hu)
  refine ⟨_, Takes.find? (hbefore.takes.seq (htype.opt.seq (hname.seq (hblanks.takes.seq
    (hvalue.takes.seq (hend.takes.seq (Takes.empty _))))))), ?_⟩
  simp [Match.group, Match.group?, hgroups']

/-- A class is recognised by its head. -/
theorem find?_typeHead_type :
    ∃ m, typeHead.find? (Form.type.head name) = some m ∧ m.group 1 = "" ∧ m.group 3 = name.text := by
  let s := Cursor.ofChars (Form.type.head name).toList
  have hrest : s.rest = "class".toList ++ ' ' :: (name.text.toList ++ [' ', '\x7b']) :=
    Form.type.toList_head name
  have hbefore : Only (Form.type.head name).length
      (group 1 (wordsBefore ["abstract", "base", "final", "sealed", "interface", "mixin"])) s
      (s.capture s 1) :=
    (only_wordsBefore .type name rfl (by decide)).group 1
  have hword : Takes (Form.type.head name).length (oneOf ["class", "mixin", "enum", "extension"])
      (s.capture s 1) ((s.capture s 1).past "class".toList) :=
    (Only.lit (s := s.capture s 1) hrest).takes.any_cons
  let t := ((s.capture s 1).past "class".toList).capture (s.capture s 1) 2
  have ht : t.rest = [' '] ++ (name.text.toList ++ [' ', '\x7b']) :=
    Cursor.rest_past (s := s.capture s 1) hrest
  have hlength : 1 + (name.text.toList.length + 2) ≤ (Form.type.head name).length := by
    rw [← String.length_toList, Form.toList_head]
    simp [Form.tail]
    omega
  have hedge : Only (Form.type.head name).length edge t t := by
    apply Only.look
    change (t.before.any Text.isWord != t.rest.head?.any Text.isWord) = true
    rw [ht]
    rfl
  have hblank : ∀ c ∈ [' '], CharClass.blank.has c = true := by
    intro c hc
    rw [List.mem_singleton.mp hc]
    rfl
  have hgap : Takes (Form.type.head name).length blanks t (t.past [' ']) :=
    Takes.many_set (c := .blank) ht hblank (name.not_blank_head _) (by simp; omega)
  let u := ((t.past [' ']).past name.text.toList).capture (t.past [' ']) 3
  have hname : Takes (Form.type.head name).length (group 3 (many word)) (t.past [' ']) u :=
    (Takes.many_set (c := .word) (Cursor.rest_past ht) (fun x hx => name.isWord_of_mem hx)
      (head_eq rfl) (by omega)).group 3
  have hu : u.rest = [' '] ++ ['\x7b'] :=
    Cursor.rest_past (s := t.past [' ']) (Cursor.rest_past ht)
  have hgap' : Takes (Form.type.head name).length blanks u (u.past [' ']) :=
    Takes.many_set (c := .blank) hu hblank (head_eq rfl) (by simp; omega)
  have hv : (u.past [' ']).rest = ['\x7b'] ++ [] := Cursor.rest_past hu
  have hparameters : Only (Form.type.head name).length
      (opt (all [lit "<", manyLazy (set (.notChars "\x7b")), lit ">"])) (u.past [' '])
      (u.past [' ']) :=
    Only.opt ((Fails.lit (by rw [hv]; decide)).seq _)
  let w := ((u.past [' ']).past ['\x7b']).capture (u.past [' ']) 4
  have hheritage : Takes (Form.type.head name).length (group 4 (many (set .notNewline)))
      (u.past [' ']) w := by
    refine (Takes.many_set hv ?_ (by simp) (by simp; omega)).group 4
    intro c hc
    rw [List.mem_singleton.mp hc]
    rfl
  have hend : Only (Form.type.head name).length stop w w := by
    apply Only.look
    have hw : w.rest = [] := Cursor.rest_past (s := u.past [' ']) hv
    change w.rest.isEmpty = true
    rw [hw]
    rfl
  have hgroups : u.groups = (3, ⟨(t.past [' ']).index, name.text.toList⟩) :: t.groups := by
    change (((t.past [' ']).past name.text.toList).capture (t.past [' ']) 3).groups = _
    rw [Cursor.capture_past (Cursor.rest_past ht), Cursor.groups_past]
  refine ⟨_, Takes.find? (hbefore.takes.seq ((hword.group 2).seq (hedge.takes.seq (hgap.seq (hname.seq
    (hgap'.seq (hparameters.takes.seq (hheritage.seq (hend.takes.seq (Takes.empty _)))))))))), ?_, ?_⟩
  · simp [Match.group, Match.group?, w, u, t, s, Cursor.capture, List.lookup]
  · simp [Match.group, Match.group?, w, Cursor.capture, hgroups, List.lookup]

/-- The word `operator` with more after it. -/
def Name.ContinuesOperator (name : Name) : Prop :=
  "operator".toList <+: name.text.toList ∧ name.text ≠ "operator"

instance : Decidable name.ContinuesOperator :=
  inferInstanceAs (Decidable (_ ∧ _))

variable {name}

/-- Words before the name of a method lead nowhere: after `set` comes no blank, and after `operator`
no other name. -/
theorem fails_setOrOperator (hrest : s.rest = name.text.toList ++ ['(', ')', ' ', '\x7b'])
    (hname : ¬ name.ContinuesOperator) (r : Regex) :
    Fails bound (.seq (any [all [lit "set", gap], all [lit "operator", blanks]])
      (.seq (group 3 (plus word)) r)) s := by
  have hbegins {w : String} (hw : '(' ∉ w.toList) (h : w.toList <+: s.rest) :
      w.toList <+: name.text.toList := by
    rw [hrest] at h
    exact prefix_of_prefix_append hw h
  apply Fails.any_seq
  rw [List.forall_mem_cons, List.forall_mem_singleton]
  constructor
  · apply Fails.seq_assoc
    by_cases hset : "set".toList <+: s.rest
    · obtain ⟨ys, hys⟩ := hbegins (by decide) hset
      have hafter : (s.past "set".toList).rest = ys ++ ['(', ')', ' ', '\x7b'] :=
        Cursor.rest_past (by rw [hrest, ← hys, List.append_assoc])
      refine (Only.lit (by rw [hrest, ← hys, List.append_assoc])).fails_seq ?_
      refine ((Fails.plus_set (c := .blank) ?_).seq _).seq _
      rw [hafter]
      cases ys with
      | nil => exact head_eq rfl
      | cons y ys => exact head_eq (name.bare_of_mem (hys ▸ by simp)).1
    · exact (Fails.lit hset).seq _
  · apply Fails.seq_assoc
    by_cases hoperator : "operator".toList <+: s.rest
    · have hwhole : name.text = "operator" := by
        by_contra hne
        exact hname ⟨hbegins (by decide) hoperator, hne⟩
      have hlit : s.rest = "operator".toList ++ ['(', ')', ' ', '\x7b'] := by rw [hrest, hwhole]
      have hafter : (s.past "operator".toList).rest = ['(', ')', ' ', '\x7b'] :=
        Cursor.rest_past hlit
      have hnone : Fails bound (.seq (group 3 (plus word)) r) (s.past "operator".toList) :=
        ((Fails.plus_set (c := .word) (by rw [hafter]; exact head_eq rfl)).group 3).seq r
      refine (Only.lit hlit).fails_seq (Fails.seq_assoc ?_)
      exact (only_blanks (by rw [hafter]; exact head_eq rfl)).fails_seq hnone
    · exact (Fails.lit hoperator).seq _

/-- A method is recognised by its head. -/
theorem find?_methodHead_method (hname : ¬ name.ContinuesOperator) :
    ∃ m, methodHead.find? (Form.method.head name) = some m ∧ m.group? 2 = some "void" ∧
      m.group 3 = name.text := by
  let s := Cursor.ofChars (Form.method.head name).toList
  have hrest : s.rest = "void".toList ++ ' ' :: (name.text.toList ++ ['(', ')', ' ', '\x7b']) :=
    Form.method.toList_head name
  have hbefore : Only (Form.method.head name).length
      (group 1 (wordsBefore ["static", "external", "abstract"])) s (s.capture s 1) :=
    (only_wordsBefore .method name rfl (by decide)).group 1
  have hlength : (s.capture s 1).rest.length ≤ (Form.method.head name).length :=
    String.length_toList.le
  obtain ⟨t, htype, ht, hgroups, hbound⟩ := takes_typed (s := s.capture s 1) (by decide)
    (fun c hc => Form.method.isWord_word hc) hrest (name.not_blank_head _) hlength 2
  obtain ⟨u, htaken, hu, hgroups'⟩ := takes_name name ht (head_eq rfl) hbound 3
  have hblanks : Only (Form.method.head name).length blanks u u :=
    only_blanks (by rw [hu]; exact head_eq rfl)
  have hparameters : Only (Form.method.head name).length
      (opt (all [lit "<", many (set (.notChars ">(")), lit ">"])) u u :=
    Only.opt ((Fails.lit (by rw [hu]; decide)).seq _)
  have hend : Only (Form.method.head name).length (lit "(") u (u.past ['(']) :=
    Only.lit (show u.rest = "(".toList ++ [')', ' ', '\x7b'] from hu)
  have hafter := htaken.seq (hblanks.takes.seq (hparameters.takes.seq (hblanks.takes.seq
    (hend.takes.seq (Takes.empty _)))))
  refine ⟨_, Takes.find? (hbefore.takes.seq (htype.opt.seq
    (Takes.skip (fails_setOrOperator ht hname _) hafter))), ?_, ?_⟩
  · simp [Match.group?, hgroups', hgroups, List.lookup, Form.word]
  · simp [Match.group, Match.group?, hgroups']

/-! ## The shapes of heads -/

theorem constructorText_head : constructorText (f.head name) = f.head name := by
  have hclash : ∀ w ∈ ["const ", "factory ", "external "],
      clash w.toList (f.word.toList ++ [' ']) = true := by cases f <;> decide
  have hnone : ["const ", "factory ", "external "].findSome? (Text.afterStart? · (f.head name)) =
      none := by
    rw [List.findSome?_eq_none_iff]
    intro w hw
    rw [Option.eq_none_iff_forall_ne_some]
    intro rest hrest
    exact not_prefix_head f name (hclash w hw) ⟨_, (Text.afterStart?_eq_some_iff.mp hrest).symm⟩
  unfold constructorText
  cases (f.head name).length with
  | zero => rfl
  | succ fuel => rw [dropWords, hnone]

/-- The name of a class holds no blank, so that no head with a word before its name is one of its
constructors. -/
theorem isConstructor_head {type : String} (htype : ' ' ∉ type.toList) :
    isConstructor (f.head name) type = false := by
  have hfirst : ∀ rest, Text.afterStart? type (f.head name) = some rest →
      ∀ c ∈ rest.toList.head?, c ∉ ['(', '.'] := by
    intro rest hrest c hc
    have hlist := Text.afterStart?_eq_some_iff.mp hrest
    rw [f.toList_head] at hlist
    obtain ⟨q, hq⟩ := prefix_of_prefix_append htype ⟨_, hlist.symm⟩
    rw [← hq, List.append_assoc, List.append_cancel_left_eq] at hlist
    rw [← hlist] at hc
    cases q with
    | nil =>
      obtain rfl : ' ' = c := by simpa using hc
      decide
    | cons d q =>
      obtain rfl : d = c := by simpa using hc
      intro hmem
      have hbare := (f.bare_word (hq ▸ List.mem_append_right _ List.mem_cons_self)).2
      simp only [List.mem_cons, List.not_mem_nil, or_false] at hmem
      rcases hmem with rfl | rfl <;> exact hbare (by decide)
  unfold isConstructor
  rw [constructorText_head, Option.any_eq_false]
  intro rest hrest
  have hstart (c : Char) (hc : c ∈ ['(', '.']) : [c].isPrefixOf rest.toList = false := by
    have hrest' := hfirst rest hrest
    cases hlist : rest.toList with
    | nil => rfl
    | cons d ds =>
      rw [hlist] at hrest'
      have hne : c ≠ d := by
        rintro rfl
        exact hrest' c rfl hc
      simp [List.isPrefixOf, hne]
  have hparenthesis : Text.startsWith "(" rest = false := hstart '(' (by decide)
  have hdot : Text.startsWith "." rest = false := hstart '.' (by decide)
  rw [hparenthesis, hdot]
  rfl

def Form.shape : Form → Shape
  | type => .type
  | field => .field
  | method => .method

/-- A line with a head declares what the head says; fields stand in classes only. -/
theorem shapeOf?_head (margin : Margin) {type : Option String}
    (htype : ∀ owner, type = some owner → ' ' ∉ owner.toList)
    (hfield : f = .field → type.isSome = true) (hname : f = .method → ¬ name.ContinuesOperator) :
    shapeOf? (margin.text ++ f.head name) (f.head name) type = some f.shape := by
  have hconstructor : type.any (isConstructor (f.head name)) = false := by
    rw [Option.any_eq_false]
    intro owner howner
    exact isConstructor_head f (htype owner howner)
  unfold shapeOf?
  rw [trim_indented margin (f.plain_head name), find?_importHead_head]
  dsimp only
  cases f with
  | type =>
    obtain ⟨m, hm, -⟩ := find?_typeHead_type name
    rw [if_pos (by rw [isMatch, hm]; rfl)]
    rfl
  | field =>
    obtain ⟨m, hm, -⟩ := find?_fieldHead_head name
    rw [isMatch, find?_typeHead_head .field name (by decide), hconstructor, isMatch,
      find?_getterHead_head .field name (by decide), isMethod, find?_methodHead_field, isMatch, hm,
      hfield rfl]
    rfl
  | method =>
    obtain ⟨m, hm, htyped, hnamed⟩ := find?_methodHead_method (hname rfl)
    have hstatement : name.text ∉ statementWords := fun hmem =>
      name.unreserved ((by decide : statementWords ⊆ reservedWords) hmem)
    have hmethod : isMethod (Form.method.head name) = true := by
      rw [isMethod, hm, Option.any_some, htyped, hnamed, Option.any_some]
      simpa using ⟨hstatement, by decide⟩
    rw [isMatch, find?_typeHead_head .method name (by decide), hconstructor, isMatch,
      find?_getterHead_head .method name (by decide), hmethod]
    rfl

end Recognition

end CodeSurvey.Dart
