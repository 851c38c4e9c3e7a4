import CodeSurvey.Proofs.Ownership.Documents
import CodeSurvey.Proofs.Regex.Separate

/-!
# Dependencies by type and name

A dependency on a resource is written as a call with the type of the resource and the parts of its
name, each of them a quoted text or an expression. The target of the dependency is put together like
the name of a resource: a quoted text stands for itself and an expression stands in brackets, as it
does where a resource is declared. So the target is the name under which the resource is an element.
-/

namespace CodeSurvey

namespace Text

theorem beforeEnd?_eq_some_iff {p s rest : String} :
    beforeEnd? p s = some rest ↔ s = rest ++ p := by
  simp only [beforeEnd?, Option.map_eq_some_iff, afterChars?_eq_some_iff]
  rw [← String.toList_inj, String.toList_append]
  constructor
  · rintro ⟨cs, hcs, rfl⟩
    rw [String.toList_ofList, ← List.reverse_inj, hcs, List.reverse_append, List.reverse_reverse]
  · intro h
    refine ⟨rest.toList.reverse, by rw [h, List.reverse_append], ?_⟩
    rw [List.reverse_reverse, String.ofList_toList]

end Text

namespace Arm

/-! ## Arguments -/

/-- The number of brackets that are open behind a text. -/
def depth (cs : List Char) : Int := cs.count '(' - cs.count ')'

/-- A text that can be one argument of a call: it is on one line without blanks around it, its
brackets match in number, and its commas stand inside of brackets. -/
structure IsArgument (text : String) : Prop where
  ne_empty : text ≠ ""
  trim_eq : Text.trim text = text
  one_line : '\n' ∉ text.toList
  depth_eq : depth text.toList = 0
  inside : ∀ n < text.length, text.toList[n]? = some ',' → 0 < depth (text.toList.take n)

def quoted (name : String) : String := "'" ++ name ++ "'"

/-- How an argument names a part of a resource: a text in quotes by the text, an expression by the
expression in brackets. -/
inductive Names : String → String → Prop
  | literal {name : String} (h : IsArgument (quoted name)) : Names (quoted name) name
  | expression {text : String} (h : IsArgument text) (hplain : ∀ name, text ≠ quoted name) :
      Names text ("[" ++ text ++ "]")

theorem Names.isArgument {text name : String} (h : Names text name) : IsArgument text := by
  cases h with
  | literal h | expression h => exact h

theorem depth_cons (c : Char) (cs : List Char) :
    depth (c :: cs) = (if c = '(' then 1 else if c = ')' then -1 else 0) + depth cs := by
  by_cases hopen : c = '('
  · subst hopen
    simp [depth]
    omega
  · by_cases hclose : c = ')'
    · subst hclose
      simp [depth]
      omega
    · simp [depth, hopen, hclose]

theorem depth_append (cs ds : List Char) : depth (cs ++ ds) = depth cs + depth ds := by
  simp only [depth, List.count_append]
  omega

/-- While an argument is read, no comma in it ends it. -/
theorem argumentsFrom_append {before after : List Char}
    (hinside : ∀ n < (before ++ after).length, (before ++ after)[n]? = some ',' →
      0 < depth ((before ++ after).take n)) (pending rest : List Char) :
    argumentsFrom (depth before) pending (after ++ rest) =
      argumentsFrom (depth (before ++ after)) (after.reverse ++ pending) rest := by
  induction after generalizing before pending with
  | nil => rw [List.append_nil, List.reverse_nil, List.nil_append, List.nil_append]
  | cons c after ih =>
    have hcomma : ¬ (c = ',' && depth before == 0) = true := by
      simp only [Bool.and_eq_true, decide_eq_true_eq, beq_iff_eq, not_and]
      rintro rfl
      have hopen := hinside before.length (by simp) (by simp)
      rw [List.take_left] at hopen
      exact ne_of_gt hopen
    have hdepth : depth (before ++ [c]) = if c = '(' then depth before + 1
        else if c = ')' then depth before - 1 else depth before := by
      have hnone : depth [] = 0 := rfl
      rw [depth_append, depth_cons, hnone]
      split_ifs <;> omega
    have hsplit : before ++ c :: after = before ++ [c] ++ after := by simp
    rw [hsplit] at hinside ⊢
    rw [List.cons_append, argumentsFrom, if_neg hcomma, ← hdepth, ih hinside (c :: pending),
      List.reverse_cons, List.append_assoc after.reverse, List.singleton_append]

namespace IsArgument

variable {text : String}

theorem argumentsFrom_eq (h : IsArgument text) (pending rest : List Char) :
    argumentsFrom 0 pending (text.toList ++ rest) =
      argumentsFrom 0 (text.toList.reverse ++ pending) rest := by
  have hread := @argumentsFrom_append [] text.toList h.inside pending rest
  rwa [List.nil_append, h.depth_eq] at hread

theorem isBlank_head (h : IsArgument text) : ∀ c ∈ text.toList.head?, Text.isBlank c = false := by
  intro c hc
  rw [← h.trim_eq] at hc
  exact Text.not_of_head?_trimWhere hc

theorem isBlank_last (h : IsArgument text) :
    ∀ c ∈ text.toList.getLast?, Text.isBlank c = false := by
  intro c hc
  rw [← h.trim_eq] at hc
  exact Text.not_of_getLast?_trimWhere hc

end IsArgument

/-- The pieces between the commas; all but the first begin with a blank. -/
theorem argumentsFrom_intercalate {text : String} {more : List String} (h : IsArgument text)
    (hmore : ∀ a ∈ more, IsArgument a) (pending : List Char) :
    argumentsFrom 0 pending ([',', ' '].intercalate ((text :: more).map String.toList)) =
      (pending.reverse ++ text.toList) :: more.map (' ' :: ·.toList) := by
  induction more generalizing text pending with
  | nil =>
    have hread := h.argumentsFrom_eq pending []
    rw [List.append_nil] at hread
    rw [List.map_singleton, List.intercalate_singleton, hread]
    simp [argumentsFrom]
  | cons a more ih =>
    obtain ⟨ha, hmore⟩ := List.forall_mem_cons.mp hmore
    rw [List.map_cons, List.map_cons, List.intercalate_cons_cons, List.append_assoc,
      h.argumentsFrom_eq]
    have hnext := ih ha hmore [' ']
    rw [List.map_cons] at hnext
    change (text.toList.reverse ++ pending).reverse ::
      argumentsFrom 0 [' '] ([',', ' '].intercalate _) = _
    rw [hnext]
    simp

/-- A call has the arguments it is written with. -/
theorem arguments_intercalate {args : List String} (hne : args ≠ [])
    (h : ∀ a ∈ args, IsArgument a) : arguments (String.intercalate ", " args) = args := by
  obtain ⟨text, more, rfl⟩ := List.exists_cons_of_ne_nil hne
  obtain ⟨htext, hmore⟩ := List.forall_mem_cons.mp h
  have hpieces := argumentsFrom_intercalate htext hmore []
  rw [arguments, String.toList_intercalate]
  change ((argumentsFrom 0 [] ([',', ' '].intercalate _)).map _) = _
  rw [hpieces, List.map_cons, List.map_map, List.reverse_nil, List.nil_append, String.ofList_toList,
    htext.trim_eq]
  congr 1
  refine List.map_congr_left (fun a ha => ?_) |>.trans (List.map_id more)
  have hblank : String.ofList (' ' :: a.toList) = " " ++ a := by
    rw [← String.toList_inj, String.toList_ofList, String.toList_append]
    rfl
  change Text.trim (String.ofList (' ' :: a.toList)) = a
  rw [hblank]
  refine Text.trimWhere_append ?_ (hmore a ha).isBlank_head (hmore a ha).isBlank_last
  intro c hc
  rw [List.mem_singleton.mp hc]
  decide

theorem Names.argumentName_eq {text name : String} (h : Names text name) :
    argumentName text = name := by
  cases h with
  | literal h =>
    have hstart : Text.afterStart? "'" (quoted name) = some (name ++ "'") := by
      rw [Text.afterStart?_eq_some_iff, quoted, String.append_assoc, String.toList_append]
    have hstop : Text.beforeEnd? "'" (name ++ "'") = some name :=
      Text.beforeEnd?_eq_some_iff.mpr rfl
    rw [argumentName, hstart, Option.bind_some, hstop, Option.getD_some]
  | expression h hplain =>
    have hnone : (Text.afterStart? "'" text).bind (Text.beforeEnd? "'") = none := by
      rw [Option.eq_none_iff_forall_ne_some]
      intro name hname
      obtain ⟨rest, hstart, hstop⟩ := Option.bind_eq_some_iff.mp hname
      rw [Text.afterStart?_eq_some_iff, ← String.toList_append, String.toList_inj] at hstart
      rw [Text.beforeEnd?_eq_some_iff] at hstop
      exact hplain name (by rw [hstart, hstop, quoted, String.append_assoc])
    rw [argumentName, hnone, Option.getD_none]

/-! ## Calls -/

/-- A call that names a resource by its type and arguments. -/
def call (type : String) (args : List String) : String :=
  "[resourceId('" ++ type ++ "', " ++ String.intercalate ", " args ++ ")]"

section Search

open Regex

variable {bound : Nat} {s t u : Cursor} {args : List Char}

theorem takes_blanks_none (h : ∀ c ∈ s.rest.head?, Text.isBlank c = false) :
    Takes bound blanks s (s.past []) :=
  (Only.many (Fails.set h)).takes

theorem takes_opening {ys : List Char} (hrest : s.rest = "[resourceId('".toList ++ ys) :
    Takes bound (all [lit "[", blanks, lit "resourceId(", blanks, lit "'"]) s
      (s.past "[resourceId('".toList) := by
  have hopen : s.rest = "[".toList ++ ("resourceId(".toList ++ '\'' :: ys) := hrest
  have hcall : (s.past ['[']).rest = "resourceId(".toList ++ '\'' :: ys := Cursor.rest_past hopen
  have htype : ((s.past ['[']).past "resourceId(".toList).rest = '\'' :: ys :=
    Cursor.rest_past hcall
  have hfirst : ∀ c ∈ (s.past ['[']).rest.head?, Text.isBlank c = false := by
    rw [hcall]
    rintro c ⟨⟩
    decide
  have hsecond : ∀ c ∈ ((s.past ['[']).past "resourceId(".toList).rest.head?,
      Text.isBlank c = false := by
    rw [htype]
    rintro c ⟨⟩
    decide
  change Takes bound _ s (s.past
    (['['] ++ ([] ++ ("resourceId(".toList ++ ([] ++ ['\''])))))
  exact Takes.all_cons (Only.lit hopen).takes (Takes.all_cons (takes_blanks_none hfirst)
    (Takes.all_cons (Only.lit hcall).takes (Takes.all_cons (takes_blanks_none hsecond)
      (Takes.all_singleton (Only.lit htype).takes))))

theorem takes_comma {ys : List Char} (hrest : s.rest = "', ".toList ++ ys)
    (hys : ∀ c ∈ ys.head?, Text.isBlank c = false) (hbound : 0 < bound) :
    Takes bound (all [lit "'", blanks, lit ",", blanks]) s (s.past "', ".toList) := by
  have hquote : s.rest = "'".toList ++ ',' :: ' ' :: ys := hrest
  have hcomma : (s.past ['\'']).rest = ',' :: ' ' :: ys := Cursor.rest_past hquote
  have hgap : ((s.past ['\'']).past [',']).rest = [' '] ++ ys := Cursor.rest_past hcomma
  have hfirst : ∀ c ∈ (s.past ['\'']).rest.head?, Text.isBlank c = false := by
    rw [hcomma]
    rintro c ⟨⟩
    decide
  have hblank : ∀ c ∈ [' '], CharClass.blank.has c = true :=
    List.forall_mem_singleton.mpr (by decide)
  change Takes bound _ s (s.past (['\''] ++ ([] ++ ([','] ++ [' ']))))
  exact Takes.all_cons (Only.lit hquote).takes (Takes.all_cons (takes_blanks_none hfirst)
    (Takes.all_cons (Only.lit hcomma).takes (Takes.all_singleton
      (Takes.many_set hgap hblank hys hbound))))

/-- What is left for the arguments ends with the bracket of the call, and so they are all of it. -/
theorem groups_of_reads_arguments (hrest : s.rest = args ++ [')', ']'])
    (h : Reads (all [group 2 (plus (set .notNewline)), lit ")", blanks, lit "]", stop]) s u) :
    u.groups = (2, ⟨s.index, args⟩) :: s.groups := by
  simp only [reads_all_cons, reads_all_nil] at h
  obtain ⟨a, hgroup, b, hclose, c, hblanks, d, hend, e, hstop, rfl⟩ := h
  obtain ⟨found, -, hfound, hgroups⟩ := (spans_atLeast 1 .notNewline).of_reads_group hgroup
  obtain ⟨_, rfl, hclose, hb⟩ := (spans_lit ")").of_reads hclose
  obtain ⟨gap, hgap, hblanks, hc⟩ := (spans_many .blank).of_reads hblanks
  obtain ⟨_, rfl, hend, hd⟩ := (spans_lit "]").of_reads hend
  obtain ⟨hstop, rfl⟩ := reads_look.mp hstop
  have hnothing : u.rest = [] := by simpa [Anchor.holds] using hstop
  have hall : args ++ [')'] ++ [']'] = found ++ ')' :: gap ++ [']'] := by
    rw [List.append_assoc, List.append_assoc]
    refine hrest.symm.trans ?_
    rw [hfound, hclose, hblanks, hend, hnothing]
    rfl
  have hargs : args ++ [')'] = found ++ ')' :: gap := List.append_cancel_right hall
  -- a blank behind the bracket would be the last character but one
  obtain rfl : gap = [] := by
    by_contra hne
    obtain ⟨front, last, rfl⟩ : ∃ front last, gap = front ++ [last] :=
      (List.eq_nil_or_concat' gap).resolve_left hne
    rw [← List.cons_append, ← List.append_assoc] at hargs
    obtain rfl : ')' = last := List.singleton_inj.mp (List.append_inj_right' hargs rfl)
    exact absurd (hgap ')' (by simp)) (by decide)
  obtain rfl : args = found := List.append_cancel_right hargs
  rw [hd, hc, hb, hgroups]

theorem exists_reads_arguments (hne : args ≠ []) (hline : '\n' ∉ args)
    (hrest : s.rest = args ++ [')', ']']) :
    ∃ u, Reads (all [group 2 (plus (set .notNewline)), lit ")", blanks, lit "]", stop]) s u := by
  have hplain : ∀ c ∈ args, CharClass.notNewline.has c = true := by
    intro c hc
    have hother : c ≠ '\n' := by
      rintro rfl
      exact hline hc
    simpa [CharClass.notNewline, CharClass.has] using hother.symm
  obtain ⟨a, hgroup, ha⟩ := (spans_atLeast 1 .notNewline).exists_reads_group 2
    ⟨List.length_pos_of_ne_nil hne, hplain⟩ hrest
  obtain ⟨b, hclose, hb⟩ := (spans_lit ")").exists_reads rfl ha
  obtain ⟨c, hblanks, hc⟩ := (spans_many .blank).exists_reads (List.forall_mem_nil _) hb
  obtain ⟨d, hend, hd⟩ := (spans_lit "]").exists_reads rfl hc
  refine ⟨d, .seq hgroup (.seq hclose (.seq hblanks (.seq hend (.seq (.look ?_) .empty))))⟩
  simp [Anchor.holds, hd]

/-- A call is taken apart into its type and its arguments. -/
theorem exists_find?_resourceId {type args : String} (htype : type ≠ "")
    (hquote : '\'' ∉ type.toList) (hargs : args ≠ "") (hline : '\n' ∉ args.toList)
    (hhead : ∀ c ∈ args.toList.head?, Text.isBlank c = false) :
    ∃ m, resourceId.find? ("[resourceId('" ++ type ++ "', " ++ args ++ ")]") = some m ∧
      m.group 1 = type ∧ m.group 2 = args := by
  generalize htext : "[resourceId('" ++ type ++ "', " ++ args ++ ")]" = text
  have hrest : (Cursor.ofChars text.toList).rest =
      "[resourceId('".toList ++ (type.toList ++ ("', ".toList ++ (args.toList ++ [')', ']']))) := by
    change text.toList = _
    simp [← htext]
  have hlength : type.toList.length + (args.toList ++ [')', ']']).length < text.length := by
    have hopening : 0 < "[resourceId('".toList.length := by decide
    rw [← String.length_toList, show text.toList = _ from hrest]
    simp only [List.length_append, List.length_cons]
    omega
  have htypes := Cursor.rest_past hrest
  have hne : type.toList ≠ [] := by simpa using htype
  have hplain : ∀ c ∈ type.toList, (CharClass.notChars "'").has c = true := by
    intro c hc
    have hother : c ≠ '\'' := by
      rintro rfl
      exact hquote hc
    simpa [CharClass.notChars, CharClass.chars, CharClass.anyOf, CharClass.has] using hother.symm
  have hgroup : Takes text.length (plus (set (.notChars "'"))) _ _ :=
    Takes.plus_set hne htypes hplain (by rintro c ⟨⟩; decide)
      (Nat.le_of_add_right_le hlength.le)
  have hcomma : ((((Cursor.ofChars text.toList).past "[resourceId('".toList).past
      type.toList).capture ((Cursor.ofChars text.toList).past "[resourceId('".toList) 1).rest =
        "', ".toList ++ (args.toList ++ [')', ']']) := Cursor.rest_past htypes
  have hargs' : args.toList ≠ [] := by simpa using hargs
  have hhead' : ∀ c ∈ (args.toList ++ [')', ']']).head?, Text.isBlank c = false := by
    rwa [List.head?_append_of_ne_nil _ hargs']
  have htakes := (takes_opening hrest).all_append ((hgroup.group 1).all_singleton.all_append
    (takes_comma hcomma hhead' (Nat.zero_lt_of_lt hlength)))
  have hafter := Cursor.rest_past hcomma
  obtain ⟨u, hread⟩ := exists_reads_arguments hargs' hline hafter
  obtain ⟨m, v, hfind, hread, hgroups⟩ :=
    htakes.exists_reads_of_find? (hafter ▸ (Nat.le_add_left _ _).trans hlength.le) hread
  rw [groups_of_reads_arguments hafter hread, Cursor.groups_past,
    Cursor.capture_past htypes] at hgroups
  refine ⟨m, hfind, ?_, ?_⟩
  · rw [Match.group, Match.group?, hgroups]
    exact String.ofList_toList
  · rw [Match.group, Match.group?, hgroups]
    exact String.ofList_toList

end Search

/-! ## Targets of dependencies -/

theorem trim_call (type : String) (args : List String) :
    Text.trim (call type args) = call type args := by
  apply Text.trimWhere_eq_self
  · rw [call, String.append_assoc, String.append_assoc, String.append_assoc, String.toList_append]
    rintro c ⟨⟩
    decide
  · have hlast : (call type args).toList.getLast? = some ']' := by
      rw [call, String.toList_append, List.getLast?_append_of_ne_nil _ (by decide)]
      rfl
    rw [hlast]
    rintro c ⟨⟩
    decide

/-- Arguments begin with the first of them, and go on in the same line. -/
theorem exists_tail_intercalate (text : String) {more : List String}
    (hmore : ∀ a ∈ more, IsArgument a) :
    ∃ tail, (String.intercalate ", " (text :: more)).toList = text.toList ++ tail ∧
      '\n' ∉ tail := by
  rw [String.toList_intercalate]
  induction more generalizing text with
  | nil => exact ⟨[], by simp, List.not_mem_nil⟩
  | cons a more ih =>
    obtain ⟨ha, hmore⟩ := List.forall_mem_cons.mp hmore
    obtain ⟨tail, heq, hline⟩ := ih a hmore
    refine ⟨", ".toList ++ (a.toList ++ tail), ?_, ?_⟩
    · rw [← heq, List.map_cons, List.map_cons, List.intercalate_cons_cons, List.append_assoc,
        ← List.map_cons]
    · rw [List.mem_append, List.mem_append]
      rintro (h | h | h)
      · exact absurd h (by decide)
      · exact ha.one_line h
      · exact hline h

/-- The target of a call is the type and the names of its arguments. -/
theorem dependencyTarget_call {type : String} (htype : type ≠ "") (hquote : '\'' ∉ type.toList)
    {parts : List (String × String)} (hne : parts ≠ []) (h : ∀ p ∈ parts, Names p.1 p.2) :
    dependencyTarget (call type (parts.map Prod.fst)) =
      String.intercalate "/" (type :: parts.map Prod.snd) := by
  have hargs : ∀ a ∈ parts.map Prod.fst, IsArgument a :=
    List.forall_mem_map.mpr fun p hp => (h p hp).isArgument
  obtain ⟨⟨text, name⟩, more, rfl⟩ := List.exists_cons_of_ne_nil hne
  obtain ⟨htext, hmore⟩ := List.forall_mem_cons.mp hargs
  obtain ⟨tail, htail, hline⟩ := exists_tail_intercalate text hmore
  have hchars : text.toList ≠ [] := by simpa using htext.ne_empty
  obtain ⟨m, hfind, hfirst, hsecond⟩ : ∃ m, resourceId.find? (call type _) = some m ∧
      m.group 1 = type ∧ m.group 2 = String.intercalate ", " (text :: more.map Prod.fst) := by
    refine exists_find?_resourceId htype hquote ?_ ?_ ?_
    · intro hempty
      rw [hempty] at htail
      exact hchars (List.append_eq_nil_iff.mp htail.symm).1
    · rw [htail, List.mem_append, not_or]
      exact ⟨htext.one_line, hline⟩
    · rw [htail, List.head?_append_of_ne_nil _ hchars]
      exact htext.isBlank_head
  have hnames : (((text, name) :: more).map Prod.fst).map argumentName =
      ((text, name) :: more).map Prod.snd := by
    rw [List.map_map]
    exact List.map_congr_left fun p hp => (h p hp).argumentName_eq
  rw [dependencyTarget, trim_call, List.map_cons, hfind]
  dsimp only
  rw [hfirst, hsecond, arguments_intercalate (List.cons_ne_nil _ _) hargs]
  exact congrArg (fun names => String.intercalate "/" (type :: names)) hnames

/-- A text in quotes that could not be taken for anything else is an argument. -/
theorem isArgument_quoted {name : String}
    (h : ∀ c ∈ name.toList, c ∉ [',', '(', ')', '\n']) : IsArgument (quoted name) := by
  have hchars : (quoted name).toList = '\'' :: (name.toList ++ ['\'']) := by
    rw [quoted, String.append_assoc, String.toList_append, String.toList_append]
    rfl
  have hnone {c : Char} (hc : c ∈ [',', '(', ')', '\n']) : c ∉ (quoted name).toList := by
    rw [hchars, List.mem_cons, List.mem_append, List.mem_singleton]
    rintro (rfl | hname | rfl)
    · exact absurd hc (by decide)
    · exact h c hname hc
    · exact absurd hc (by decide)
  refine ⟨?_, ?_, hnone (by decide), ?_, ?_⟩
  · intro hempty
    rw [hempty] at hchars
    cases hchars
  · apply Text.trimWhere_eq_self
    · rw [hchars]
      rintro c ⟨⟩
      decide
    · rw [hchars, ← List.cons_append, List.getLast?_concat]
      rintro c ⟨⟩
      decide
  · rw [depth, List.count_eq_zero.mpr (hnone (by decide)),
      List.count_eq_zero.mpr (hnone (by decide))]
    rfl
  · intro n _ hcomma
    exact absurd (List.mem_of_getElem? hcomma) (hnone (by decide))

/-- What a listed resource of a type and a name is declared as. -/
def IsNameOf (target type name : String) : Prop :=
  ∀ owner fields line, fields.lookup "type" = some (.str type) →
    fields.lookup "name" = some (.str name) →
      ∃ r inner, resourceFrom owner none (.obj fields) = r :: inner ∧
        (resourceDeclaration line r).name = target

theorem isNameOf (type name : String) : IsNameOf (type ++ "/" ++ name) type name := by
  intro owner fields line htype hname
  rw [resourceFrom, htype, hname]
  exact ⟨_, _, rfl, name_resourceDeclaration line _⟩

/-- A dependency names the resource that it is on. With a quoted name its target is the name under
which the resource of this type and name is declared, with an expression it is that of the resource
named by the expression in brackets, and with several arguments it is the type and all their
names. -/
theorem dependencies_name_resources {type : String} (htype : type ≠ "")
    (hquote : '\'' ∉ type.toList) :
    (∀ name, (∀ c ∈ name.toList, c ∉ ['\'', ',', '(', ')', '\n']) →
      IsNameOf (dependencyTarget (call type [quoted name])) type name) ∧
    (∀ text, IsArgument text → (∀ name, text ≠ quoted name) →
      IsNameOf (dependencyTarget (call type [text])) type ("[" ++ text ++ "]")) ∧
    ∀ parts ≠ [], (∀ p ∈ parts, Names p.1 p.2) →
      dependencyTarget (call type (parts.map Prod.fst)) =
        String.intercalate "/" (type :: parts.map Prod.snd) := by
  have hone {text name : String} (h : Names text name) :
      dependencyTarget (call type [text]) = type ++ "/" ++ name := by
    have htarget := dependencyTarget_call htype hquote (List.cons_ne_nil (text, name) [])
      (List.forall_mem_singleton.mpr h)
    rw [List.map_singleton, List.map_singleton] at htarget
    rw [htarget, ← String.toList_inj, String.toList_intercalate]
    simp
  refine ⟨fun name hname => ?_, fun text htext hplain => ?_, fun parts hne hparts => ?_⟩
  · have hargument : IsArgument (quoted name) := by
      refine isArgument_quoted fun c hc hmem => hname c hc (List.mem_cons_of_mem _ hmem)
    rw [hone (.literal hargument)]
    exact isNameOf type name
  · rw [hone (.expression htext hplain)]
    exact isNameOf type _
  · exact dependencyTarget_call htype hquote hne hparts

/-- A server whose name is put together by a call. -/
def serverName : String := "concat(parameters('p'), 'x')"

/-- A database of the server: its name, the name of a resource by the expression, and both. -/
theorem dependencies_name_resources_database :
    (∃ r inner, resourceFrom "a.json" none
        (.obj [("name", .str "db"), ("type", .str "Sql/databases")]) = r :: inner ∧
      (resourceDeclaration 1 r).name = dependencyTarget (call "Sql/databases" [quoted "db"])) ∧
    (∃ r inner, resourceFrom "a.json" none
        (.obj [("name", .str ("[" ++ serverName ++ "]")), ("type", .str "Sql/databases")]) =
          r :: inner ∧
      (resourceDeclaration 1 r).name = dependencyTarget (call "Sql/databases" [serverName])) ∧
    dependencyTarget (call "Sql/databases" [serverName, quoted "db"]) =
      String.intercalate "/" ["Sql/databases", "[" ++ serverName ++ "]", "db"] := by
  have hplain : ∀ c ∈ "db".toList, c ∉ ['\'', ',', '(', ')', '\n'] :=
    List.forall_mem_cons.mpr ⟨by decide, List.forall_mem_singleton.mpr (by decide)⟩
  have hserver : IsArgument serverName :=
    ⟨by decide, by decide +kernel, by decide, by decide, by decide⟩
  have hcall : ∀ name, serverName ≠ quoted name := by
    intro name heq
    have hchars := congrArg String.toList heq
    rw [quoted, String.append_assoc, String.toList_append] at hchars
    exact absurd (List.cons.inj hchars).1 (by decide)
  have hparts : ∀ p ∈ [(serverName, "[" ++ serverName ++ "]"), (quoted "db", "db")],
      Names p.1 p.2 :=
    List.forall_mem_cons.mpr ⟨.expression hserver hcall, List.forall_mem_singleton.mpr
      (.literal (isArgument_quoted fun c hc hmem => hplain c hc (List.mem_cons_of_mem _ hmem)))⟩
  obtain ⟨hname, hexpression, hboth⟩ :=
    @dependencies_name_resources "Sql/databases" (by decide) (by decide)
  have htarget := hboth _ (List.cons_ne_nil _ _) hparts
  simp only [List.map_cons, List.map_nil] at htarget
  exact ⟨hname "db" hplain "a.json" [("name", .str "db"), ("type", .str "Sql/databases")] 1 rfl rfl,
    hexpression serverName hserver hcall "a.json"
      [("name", .str ("[" ++ serverName ++ "]")), ("type", .str "Sql/databases")] 1 rfl rfl,
    htarget⟩

end Arm

end CodeSurvey
