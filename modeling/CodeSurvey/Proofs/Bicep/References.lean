import CodeSurvey.Proofs.Bicep.Decorators
import CodeSurvey.Proofs.Regex.Separate
import CodeSurvey.Proofs.Text.Cuts
import CodeSurvey.Proofs.Text.Sorted

/-!
# References between declarations

A declaration uses a symbol if the symbol is named in its text. The text is searched line by line, as
code: without the inside of literals and without comments, and the first line from its equals sign
on. What counts as named is a whole word that does not follow a dot. A search sees words that begin
with a basic letter or a low line, so that just these symbols are found.
-/

namespace CodeSurvey.Bicep

/-! ## Names -/

/-- A word begins with a basic letter or a low line. -/
def BeginsName (name : List Char) : Prop := ∃ c ∈ name.head?, CharClass.nameStart.has c = true

/-- A word that begins with a basic letter or a low line. -/
def IsName (name : List Char) : Prop := BeginsName name ∧ ∀ c ∈ name, Text.isWord c = true

/-- A name stands in a text as a whole word, and not directly behind a dot. -/
def NamedIn (name : String) (text : List Char) : Prop :=
  ∃ before after, text = before ++ (name.toList ++ after) ∧
    (∀ c ∈ before.getLast?, Text.isWord c = false ∧ c ≠ '.') ∧
    ∀ c ∈ after.head?, Text.isWord c = false

section Search

open Regex

variable {bound : Nat} {s t : Cursor} {m : Match} {name ys : List Char}

/-- Behind a word there is an edge if the word does not go on. -/
theorem holds_wordEdge_past_iff (hname : IsName name) (hrest : s.rest = name ++ ys) :
    Anchor.wordEdge.holds (s.past name) = true ↔ ∀ y ∈ ys.head?, Text.isWord y = false := by
  obtain ⟨⟨c, hc, -⟩, hwords⟩ := hname
  obtain rfl | ⟨front, last, rfl⟩ := List.eq_nil_or_concat' name
  · cases hc
  · have hlast : Text.isWord last = true := hwords last (by simp)
    rw [Anchor.holds, Cursor.rest_past hrest, Cursor.before_past_concat]
    cases ys with
    | nil | cons => simp [hlast]

theorem IsName.cons_iff {c : Char} {cs : List Char} :
    IsName (c :: cs) ↔ CharClass.nameStart.has c = true ∧ ∀ x ∈ cs, Text.isWord x = true := by
  constructor
  · rintro ⟨⟨x, hx, hstart⟩, hwords⟩
    obtain rfl : c = x := by simpa using hx
    exact ⟨hstart, (List.forall_mem_cons.mp hwords).2⟩
  · rintro ⟨hstart, hwords⟩
    exact ⟨⟨c, rfl, hstart⟩, List.forall_mem_cons.mpr ⟨isWord_of_nameStart hstart, hwords⟩⟩

/-- A name stands at a position as a whole word, with other characters after it. -/
structure StandsAt (s : Cursor) (name after : List Char) : Prop where
  rest_eq : s.rest = name ++ after
  isName : IsName name
  starts : ∀ x ∈ s.before, Text.isWord x = false
  ends : ∀ y ∈ after.head?, Text.isWord y = false

theorem reads_symbol (h : Reads symbol s t) : ∃ name ys, StandsAt s name ys ∧ t = s.past name := by
  simp only [symbol, reads_all_cons, reads_all_nil] at h
  obtain ⟨_, hedge, _, hstart, _, hmore, _, hend, rfl⟩ := h
  obtain ⟨hedge, rfl⟩ := reads_look.mp hedge
  obtain ⟨hend, rfl⟩ := reads_look.mp hend
  obtain ⟨_, rest, hrest, ⟨c, hc, rfl⟩, rfl⟩ := (spans_set _ _ _).mp hstart
  obtain ⟨cs, ys, hrest', hcs, rfl⟩ := (spans_many _ _ _).mp hmore
  rw [Cursor.rest_past hrest] at hrest'
  subst hrest'
  have hname : IsName (c :: cs) := IsName.cons_iff.mpr ⟨hc, hcs⟩
  refine ⟨c :: cs, ys, ⟨hrest, hname, ?_, ?_⟩, rfl⟩
  · exact (holds_wordEdge_iff hrest (isWord_of_nameStart hc)).mp hedge
  · exact (holds_wordEdge_past_iff hname hrest).mp hend

theorem StandsAt.takes (h : StandsAt s name ys) (hbound : s.rest.length ≤ bound) :
    Takes bound symbol s (s.past name) := by
  obtain ⟨hrest, hname, hstarts, hends⟩ := h
  have hend := (holds_wordEdge_past_iff hname hrest).mpr hends
  cases name with
  | nil => simp [IsName, BeginsName] at hname
  | cons c cs =>
    obtain ⟨hc, hcs⟩ := IsName.cons_iff.mp hname
    have hnext : (s.past [c]).rest = cs ++ ys := Cursor.rest_past hrest
    have hlength : cs.length ≤ bound := by
      rw [hrest, List.length_append, List.length_cons] at hbound
      omega
    refine Takes.seq (Only.look ?_).takes (Takes.seq (Only.set hrest hc).takes (Takes.seq
      (Takes.many_set hnext hcs hends hlength) (Takes.seq (Only.look hend).takes (Takes.empty _))))
    exact (holds_wordEdge_iff hrest (isWord_of_nameStart hc)).mpr hstarts

/-- What is found stands there as a whole word. -/
theorem exists_standsAt_of_matchAt (h : symbol.matchAt bound s = some (m, t)) :
    ∃ name ys, StandsAt s name ys ∧ m = ⟨s.index, s.index + name.length, name, []⟩ := by
  obtain ⟨name, ys, hstands, ht⟩ := reads_symbol (reads_of_matchAt h).1
  obtain ⟨xs, zs, groups, hrest, rfl, rfl⟩ := exists_of_matchAt h
  change _ = (s.withGroups []).past name at ht
  rw [Cursor.withGroups_past] at ht
  have hgroups : groups = [] := congrArg Cursor.groups ht
  have hlength : xs.length = name.length := by
    have hindex := congrArg Cursor.index ht
    simpa using hindex
  obtain rfl : xs = name := List.append_inj_left (hrest.symm.trans hstands.rest_eq) hlength
  exact ⟨xs, ys, ⟨hstands.rest_eq, hstands.isName, hstands.starts, hstands.ends⟩, by rw [hgroups]⟩

theorem StandsAt.matchAt (h : StandsAt s name ys) (hbound : s.rest.length ≤ bound) :
    ∃ t, symbol.matchAt bound s =
      some (⟨s.index, s.index + name.length, name, []⟩, t) := by
  have hplain : StandsAt (s.withGroups []) name ys := ⟨h.rest_eq, h.isName, h.starts, h.ends⟩
  exact ⟨_, (hplain.takes hbound).matchAt h.rest_eq⟩

theorem advances_symbol (bound : Nat) : Advances bound symbol :=
  advances_of_leastLength (by decide)

/-- Inside of a word no other word starts. -/
theorem separate_symbol (bound : Nat) : Separate bound symbol := by
  intro s zs ys m t m' t' hrest hne h h'
  obtain ⟨name, ws, hstands, rfl⟩ := exists_standsAt_of_matchAt h
  obtain ⟨name', ws', hstands', -⟩ := exists_standsAt_of_matchAt h'
  by_contra hinside
  have hlt : zs.length < name.length := by
    dsimp only at hinside
    omega
  obtain ⟨more, hmore⟩ : zs <+: name :=
    List.prefix_of_prefix_length_le ⟨ys, hrest.symm⟩ ⟨ws, hstands.rest_eq.symm⟩ hlt.le
  -- the second word would start behind a letter of the first
  obtain rfl | ⟨front, last, rfl⟩ := List.eq_nil_or_concat' zs
  · exact hne rfl
  · have hword : Text.isWord last = true := hstands.isName.2 last (by simp [← hmore])
    have hnone := hstands'.starts last (Cursor.before_past_concat s front last)
    rw [hword] at hnone
    cases hnone

end Search

/-! ## The symbols that a text names -/

theorem endsWith_dot_eq_false_iff (cs : List Char) :
    Text.endsWith "." (String.ofList cs) = false ↔ ∀ c ∈ cs.getLast?, c ≠ '.' := by
  rw [← Bool.not_eq_true, Text.endsWith, List.isSuffixOf_iff_suffix, String.toList_ofList (l := cs)]
  change ¬ ['.'] <:+ cs ↔ _
  constructor
  · rintro h c hc rfl
    obtain ⟨front, rfl⟩ := List.getLast?_eq_some_iff.mp hc
    exact h (List.suffix_append front ['.'])
  · rintro h ⟨front, rfl⟩
    exact h '.' (List.getLast?_concat ..) rfl

/-- Where a name stands as a whole word, in terms of the text. -/
theorem standsAt_past_iff {cs before name after : List Char} (hcs : cs = before ++ (name ++ after)) :
    StandsAt ((Cursor.ofChars cs).past before) name after ↔
      IsName name ∧ (∀ c ∈ before.getLast?, Text.isWord c = false) ∧
        ∀ c ∈ after.head?, Text.isWord c = false := by
  have hrest : ((Cursor.ofChars cs).past before).rest = name ++ after := Cursor.rest_past hcs
  rw [← Cursor.before_ofChars_past cs]
  constructor
  · rintro ⟨-, hname, hstarts, hends⟩
    exact ⟨hname, hstarts, hends⟩
  · rintro ⟨hname, hstarts, hends⟩
    exact ⟨hrest, hname, hstarts, hends⟩

/-- The symbols found in a text are the other ones that it names. -/
theorem mem_symbolsIn_iff {symbols : List String} {own code name : String} :
    name ∈ symbolsIn symbols own code ↔
      name ∈ symbols ∧ name ≠ own ∧ IsName name.toList ∧ NamedIn name code.toList := by
  have hstart {before after : List Char} (hcode : code.toList = before ++ after) :
      Text.take ((Cursor.ofChars code.toList).past before).index code = String.ofList before := by
    simp [Text.take, Cursor.ofChars, hcode]
  simp only [symbolsIn, List.mem_map, List.mem_filter,
    (separate_symbol code.length).mem_findAll_iff (advances_symbol code.length), Bool.and_eq_true,
    bne_iff_ne, List.contains_iff_mem, Bool.not_eq_true']
  constructor
  · rintro ⟨m, ⟨⟨before, ys, t, hcode, hmatch⟩, ⟨hown, hmem⟩, hdot⟩, rfl⟩
    obtain ⟨found, after, hstands, rfl⟩ := exists_standsAt_of_matchAt hmatch
    rw [hstart hcode, endsWith_dot_eq_false_iff] at hdot
    have hplace : ((Cursor.ofChars code.toList).past before).rest = ys := Cursor.rest_past hcode
    rw [hstands.rest_eq] at hplace
    rw [← hplace] at hcode
    obtain ⟨hname, hbefore, hafter⟩ := (standsAt_past_iff hcode).mp hstands
    refine ⟨hmem, hown, by rwa [Match.text, String.toList_ofList], before, after, ?_, ?_, hafter⟩
    · rwa [Match.text, String.toList_ofList]
    · exact fun c hc => ⟨hbefore c hc, hdot c hc⟩
  · rintro ⟨hmem, hown, hname, before, after, hcode, hbefore, hafter⟩
    have hstands := (standsAt_past_iff hcode).mpr ⟨hname, fun c hc => (hbefore c hc).1, hafter⟩
    obtain ⟨t, hmatch⟩ := hstands.matchAt
      ((Cursor.length_rest_past_le _ before).trans String.length_toList.le)
    have htext (start stop : Nat) : (Match.mk start stop name.toList []).text = name :=
      String.ofList_toList
    refine ⟨_, ⟨⟨before, _, t, hcode, hmatch⟩, ⟨?_, ?_⟩, ?_⟩, htext _ _⟩
    · rwa [htext]
    · rwa [htext]
    · rw [hstart hcode, endsWith_dot_eq_false_iff]
      exact fun c hc => (hbefore c hc).2

/-- What is declared is a word. -/
theorem isWord_of_mem_group {keyword line : String} {more : List Regex} {m : Match}
    (hmore : 1 ∉ (Regex.all more).groupNumbers)
    (h : (Regex.all (.start :: .lit keyword :: .gap :: .group 1 (.plus .word) :: more)).find? line =
      some m) : ∀ c ∈ (m.group 1).toList, Text.isWord c = true := by
  obtain ⟨⟨m, t⟩, hsearch, rfl⟩ := Option.map_eq_some_iff.mp h
  obtain ⟨xs, ys, -, hmatch⟩ := Regex.exists_place_of_search hsearch
  obtain ⟨hread, hgroups⟩ := Regex.reads_of_matchAt hmatch
  simp only [Regex.reads_all_cons (r := .start), Regex.reads_all_cons (r := .lit keyword),
    Regex.reads_all_cons (r := .gap), Regex.reads_all_cons (r := .group 1 _)] at hread
  obtain ⟨_, -, _, -, _, -, u, hgroup, hrest⟩ := hread
  obtain ⟨word, ⟨-, hword⟩, -, hu⟩ := (Regex.spans_atLeast 1 .word).of_reads_group hgroup
  have hlookup := hrest.lookup_groups hmore
  rw [hu, List.lookup_cons_self] at hlookup
  rw [Match.group, Match.group?, hgroups, hlookup, Option.map_some, Option.getD_some,
    String.toList_ofList]
  exact hword

theorem Shape.Declares.isWord {shape : Shape} {symbol line : String}
    (h : shape.Declares symbol line) : ∀ c ∈ symbol.toList, Text.isWord c = true := by
  obtain ⟨m, hm, rfl⟩ := h
  cases shape with
  | parameter | binding | resource | nested | output | type =>
    exact isWord_of_mem_group (by decide) hm

/-! ## The lines that are searched -/

/-- What follows the first equals sign, all of it if there is none. -/
def afterEquals (cs : List Char) : List Char :=
  if '=' ∈ cs then (cs.dropWhile (· != '=')).tail else cs

/-- A line of a declaration as it is searched for names: as code, and the first line from its equals
sign on. -/
def searched (lines : List String) (first number : Nat) : List Char :=
  if number = first then
    afterEquals (Code.codeChars "//".toList none (lines.getD (number - 1) "").toList)
  else Code.codeChars "//".toList none (lines.getD (number - 1) "").toList

theorem findChars?_singleton (c : Char) (cs : List Char) (i : Nat) :
    Text.findChars? [c] cs i =
      if c ∈ cs then some (i + (cs.takeWhile (· != c)).length) else none := by
  induction cs generalizing i with
  | nil => rfl
  | cons x cs ih =>
    rw [Text.findChars?]
    by_cases hx : c = x
    · subst hx
      simp
    · have hx' : (x != c) = true := bne_iff_ne.mpr (Ne.symm hx)
      rw [if_neg (by simpa using hx), ih, List.takeWhile_cons_of_pos (p := (· != c)) hx']
      simp only [List.mem_cons, hx, false_or, List.length_cons]
      split
      · rw [Nat.add_assoc, Nat.add_comm 1]
      · rfl

theorem toList_drop_equals (code : String) :
    (Text.drop (((Text.find? "=" code).map (· + 1)).getD 0) code).toList =
      afterEquals code.toList := by
  rw [Text.drop, String.toList_ofList, Text.find?, afterEquals]
  change List.drop (((Text.findChars? ['='] code.toList 0).map (· + 1)).getD 0) code.toList = _
  rw [findChars?_singleton]
  split
  · have hcut := @List.drop_left _ (code.toList.takeWhile (· != '=')) (code.toList.dropWhile (· != '='))
    rw [List.takeWhile_append_dropWhile] at hcut
    rw [Option.map_some, Option.getD_some, Nat.zero_add, ← List.tail_drop, hcut]
  · rfl

/-- The lines of a declaration as they are searched, with their numbers. -/
theorem mem_bodyLines_iff {path text : String} {m : Member}
    (hle : m.start ≤ m.stop) (hlt : m.stop < (Text.lines text).length) {code : String} {n : Nat} :
    (code, n) ∈ bodyLines (.ofText path text) m ↔
      m.start + 1 ≤ n ∧ n ≤ m.stop + 1 ∧
        code.toList = searched (Text.lines text) (m.start + 1) n := by
  have hbody : bodyLines (.ofText path text) m =
      (((((Text.lines text).map (Code.codeLine "//")).drop m.start).take
        (m.stop + 1 - m.start)).modifyHead fun first =>
          Text.drop (((Text.find? "=" first).map (· + 1)).getD 0) first).zipIdx (m.start + 1) := by
    unfold bodyLines
    dsimp only [Template.ofText]
    congr 1
    split
    · next h => rw [h, List.modifyHead_nil]
    · next h => rw [h, List.modifyHead_cons]
  rw [hbody, List.mk_mem_zipIdx_iff_le_and_getElem?_sub]
  refine and_congr_right fun hstart => ?_
  obtain ⟨k, rfl⟩ := Nat.exists_eq_add_of_le hstart
  have hindex : m.start + 1 + k - 1 = m.start + k := by omega
  rw [Nat.add_sub_cancel_left, List.getElem?_modifyHead, List.getElem?_take, List.getElem?_drop,
    List.getElem?_map, searched, hindex, List.getD_eq_getElem?_getD]
  by_cases hk : k < m.stop + 1 - m.start
  · obtain ⟨line, hline⟩ : ∃ line, (Text.lines text)[m.start + k]? = some line :=
      ⟨_, List.getElem?_eq_getElem (by omega)⟩
    have hlast : m.start + 1 + k ≤ m.stop + 1 := by omega
    rw [if_pos hk, hline, Option.map_some, Option.getD_some, and_iff_right hlast]
    by_cases hzero : k = 0
    · rw [if_pos hzero, if_pos (by omega), Option.map_some, Option.some_inj, ← String.toList_inj,
        toList_drop_equals, Code.codeLine, String.toList_ofList, eq_comm]
    · rw [if_neg hzero, if_neg (by omega), Option.some_inj, ← String.toList_inj, Code.codeLine,
        String.toList_ofList, eq_comm]
  · have hafter : ¬ m.start + 1 + k ≤ m.stop + 1 := by omega
    rw [if_neg hk]
    simp [hafter]

/-! ## The first line for each symbol -/

theorem mem_firstOfEach_iff {entries : List (String × Nat)} {e : String × Nat}
    (h : entries.Pairwise (·.2 ≤ ·.2)) :
    e ∈ firstOfEach entries ↔ e ∈ entries ∧ ∀ x ∈ entries, x.1 = e.1 → e.2 ≤ x.2 := by
  induction entries with
  | nil => simp [firstOfEach]
  | cons first rest ih =>
    obtain ⟨hfirst, hrest⟩ := List.pairwise_cons.mp h
    rw [firstOfEach, List.mem_cons, List.mem_filter, ih hrest, List.mem_cons, List.forall_mem_cons]
    constructor
    · rintro (rfl | ⟨⟨hmem, hleast⟩, hne⟩)
      · exact ⟨.inl rfl, fun _ => le_rfl, fun x hx _ => hfirst x hx⟩
      · exact ⟨.inr hmem, fun heq => absurd heq.symm (bne_iff_ne.mp hne), hleast⟩
    · rintro ⟨rfl | hmem, hhead, hleast⟩
      · exact .inl rfl
      · by_cases heq : first.1 = e.1
        · exact .inl (Prod.ext heq.symm (le_antisymm (hhead heq) (hfirst e hmem)))
        · exact .inr ⟨⟨hmem, hleast⟩, bne_iff_ne.mpr (Ne.symm heq)⟩

theorem nodup_firstOfEach (entries : List (String × Nat)) :
    ((firstOfEach entries).map Prod.fst).Nodup := by
  induction entries with
  | nil => exact List.nodup_nil
  | cons first rest ih =>
    rw [firstOfEach, List.map_cons, List.nodup_cons]
    refine ⟨?_, ih.sublist (List.filter_sublist.map _)⟩
    simp

/-- A line of a block names something. -/
def NamesOn (lines : List String) (o : Outline) (name : String) (number : Nat) : Prop :=
  o.firstLine ≤ number ∧ number ≤ o.last ∧ NamedIn name (searched lines o.firstLine number)

/-- The symbols that the lines of a declaration name, each with the number of its line. -/
def namings (t : Template) (symbols : List String) (m : Member) : List (String × Nat) :=
  (bodyLines t m).flatMap fun l => (symbolsIn symbols m.symbol l.1).map (·, l.2)

section Uses

variable {path text : String} {m : Member} {symbols : List String} {name : String} {number : Nat}

theorem mem_namings_iff (hle : m.start ≤ m.stop) (hlt : m.stop < (Text.lines text).length) :
    (name, number) ∈ namings (.ofText path text) symbols m ↔
      (name ∈ symbols ∧ name ≠ m.symbol ∧ IsName name.toList) ∧
        NamesOn (Text.lines text) (outlineOf (.ofText path text) m) name number := by
  rw [namings, NamesOn, last_outlineOf, List.mem_flatMap]
  constructor
  · rintro ⟨⟨code, n⟩, hline, hname⟩
    obtain ⟨found, hfound, heq⟩ := List.mem_map.mp hname
    cases heq
    obtain ⟨hfirst, hlast, hcode⟩ := (mem_bodyLines_iff hle hlt).mp hline
    obtain ⟨hmem, hown, hword, hnamed⟩ := mem_symbolsIn_iff.mp hfound
    exact ⟨⟨hmem, hown, hword⟩, hfirst, hlast, hcode ▸ hnamed⟩
  · rintro ⟨⟨hmem, hown, hword⟩, hfirst, hlast, hnamed⟩
    rw [← String.toList_ofList (l := searched _ _ _)] at hnamed
    refine ⟨(_, number), (mem_bodyLines_iff hle hlt).mpr ⟨hfirst, hlast, String.toList_ofList⟩, ?_⟩
    exact List.mem_map_of_mem (mem_symbolsIn_iff.mpr ⟨hmem, hown, hword, hnamed⟩)

/-- The lines are searched from top to bottom. -/
theorem pairwise_namings (t : Template) (symbols : List String) (m : Member) :
    (namings t symbols m).Pairwise (·.2 ≤ ·.2) := by
  have hnumbers : (bodyLines t m).Pairwise (·.2 < ·.2) := by
    rw [← List.pairwise_map (f := Prod.snd) (R := (· < ·)), bodyLines, List.zipIdx_map_snd]
    exact List.pairwise_lt_range'
  rw [namings, List.pairwise_flatMap]
  constructor
  · intro l _
    rw [List.pairwise_map]
    exact List.pairwise_of_forall fun _ _ => le_rfl
  · refine hnumbers.imp fun {a b} hab => ?_
    rw [List.forall_mem_map]
    intro x _
    rw [List.forall_mem_map]
    exact fun y _ => hab.le

/-- A declaration uses the other symbols that it names, and the line is the first that names one. -/
theorem mem_uses_iff (hle : m.start ≤ m.stop) (hlt : m.stop < (Text.lines text).length) :
    (name, number) ∈ uses (.ofText path text) symbols m ↔
      name ∈ symbols ∧ name ≠ m.symbol ∧ IsName name.toList ∧
        IsLeast {n | NamesOn (Text.lines text) (outlineOf (.ofText path text) m) name n} number := by
  have huses : (name, number) ∈ uses (.ofText path text) symbols m ↔
      (name, number) ∈ firstOfEach (namings (.ofText path text) symbols m) := List.mem_mergeSort
  rw [huses, mem_firstOfEach_iff (pairwise_namings _ _ _), mem_namings_iff hle hlt]
  constructor
  · rintro ⟨⟨⟨hmem, hown, hword⟩, hnames⟩, hleast⟩
    refine ⟨hmem, hown, hword, hnames, fun n hn => ?_⟩
    exact hleast (name, n) ((mem_namings_iff hle hlt).mpr ⟨⟨hmem, hown, hword⟩, hn⟩) rfl
  · rintro ⟨hmem, hown, hword, hnames, hleast⟩
    refine ⟨⟨⟨hmem, hown, hword⟩, hnames⟩, ?_⟩
    rintro ⟨_, n⟩ hn rfl
    exact hleast ((mem_namings_iff hle hlt).mp hn).2

theorem pairwise_uses (t : Template) (symbols : List String) (m : Member) :
    (uses t symbols m).Pairwise (·.1 < ·.1) :=
  Text.pairwise_mergeSort_of_nodup Prod.fst (nodup_firstOfEach _)

end Uses

/-! ## The relations of a template -/

theorem ofText_code_length (path text : String) :
    (Template.ofText path text).code.length = (Template.ofText path text).raw.length := by
  simp [Template.ofText]

/-- The head of a declaration states what type it has or what it imports. -/
theorem kind?_headFacts {t : Template} {m : Member} {f : Fact} (h : f ∈ headFacts t m) :
    f.kind? = some .hasType ∨ f.kind? = some .imports := by
  unfold headFacts at h
  split at h
  · dsimp only at h
    split at h
    · cases h
    · exact .inl (List.mem_singleton.mp h ▸ rfl)
  · dsimp only at h
    split at h
    · cases h
    · exact .inl (List.mem_singleton.mp h ▸ rfl)
  · exact .inr (List.mem_singleton.mp h ▸ rfl)
  · cases h

/-- What a declaration states apart from its head. -/
theorem filter_memberFacts (t : Template) (symbols : List String) (m : Member) {kind : RelationKind}
    (hdefines : .defines ≠ kind) (htype : .hasType ≠ kind) (himports : .imports ≠ kind) :
    (memberFacts t symbols m).filter (·.kind? = some kind) =
      (if .hasAttribute = kind then
        m.decorators.map fun d => .edge m.symbol d.1 .hasAttribute (m.start + 1) else []) ++
      (if .uses = kind then
        (uses t symbols m).map fun u => .edge m.symbol u.1 .uses u.2 else []) ++
      if .calls = kind then
        (calledNames t symbols m).map fun c => .edge m.symbol c.1 .calls c.2 else [] := by
  have hhead : (headFacts t m).filter (·.kind? = some kind) = [] := by
    refine List.filter_eq_nil_iff.mpr fun f hf => ?_
    rcases kind?_headFacts hf with h | h
    · simpa [h] using htype
    · simpa [h] using himports
  rw [memberFacts, List.filter_append, List.filter_append, List.cons_append, List.filter_cons_of_neg,
    List.filter_append, filter_kind_map fun _ => rfl, filter_kind_map fun _ => rfl,
    filter_kind_map fun _ => rfl, hhead, List.append_nil]
  simpa [Fact.kind?] using hdefines

section Survey

variable (settings : Settings) (fs : FileSystem) {source : Source}

/-- The relations of a kind are those that the declarations state, one after the other. -/
theorem relationsOf_survey (hlive : source.cancelled = false) (kind : RelationKind) :
    (survey settings fs source).relationsOf kind =
      (members (.ofText source.path source.content)).flatMap fun m =>
        statements (source.place settings fs)
          ((memberFacts (.ofText source.path source.content)
            ((members (.ofText source.path source.content)).map (·.symbol)) m).filter
              (·.kind? = some kind)) := by
  have hrelations : (survey settings fs source).relations =
      statements (source.place settings fs) (facts (.ofText source.path source.content)) := by
    simp only [survey, hlive]
    exact (Report.relations_detect _ _ _ _).trans (Report.relations_recordAll _ _ _)
  rw [Report.relationsOf, hrelations, filter_statements, facts, List.filter_flatMap]
  exact List.filterMap_flatMap

/-- The relations of use are those of the declarations, one after the other. -/
theorem relationsOf_uses (hlive : source.cancelled = false) :
    (survey settings fs source).relationsOf .uses =
      (members (.ofText source.path source.content)).flatMap fun m =>
        (uses (.ofText source.path source.content)
          ((members (.ofText source.path source.content)).map (·.symbol)) m).map fun u =>
            (source.place settings fs).relation m.symbol u.1 .uses u.2 [] := by
  rw [relationsOf_survey settings fs hlive]
  refine List.flatMap_congr fun m _ => ?_
  rw [filter_memberFacts _ _ m (by decide) (by decide) (by decide), if_neg (by decide), if_pos rfl,
    if_neg (by decide), List.nil_append, List.append_nil]
  exact statements_map_edge _ _ _ _ _ _

/-- What is declared is a word. -/
theorem isWord_of_mem_names (hlive : source.cancelled = false) {name : String}
    (h : name ∈ (survey settings fs source).blocks.map (·.name)) :
    ∀ c ∈ name.toList, Text.isWord c = true := by
  rw [blocks_survey settings fs source hlive, List.map_map] at h
  obtain ⟨m, hm, rfl⟩ := List.mem_map.mp h
  obtain ⟨line, -, hdeclares⟩ :=
    (cut_members (ofText_code_length source.path source.content)).declares hm
  exact hdeclares.isWord

/-- The symbols that a declaration uses, in terms of the blocks of a report. -/
theorem mem_uses_members_iff (hlive : source.cancelled = false) {m : Member}
    (hm : m ∈ members (.ofText source.path source.content)) {name : String} {number : Nat} :
    (name, number) ∈ uses (.ofText source.path source.content)
        ((members (.ofText source.path source.content)).map (·.symbol)) m ↔
      name ∈ (survey settings fs source).blocks.map (·.name) ∧ name ≠ m.symbol ∧
        BeginsName name.toList ∧
        IsLeast {n | NamesOn (Text.lines source.content)
          (outlineOf (.ofText source.path source.content) m) name n} number := by
  have hcut := cut_members (ofText_code_length source.path source.content)
  obtain ⟨-, hle, hlt⟩ := hcut.bounds (ofText_code_length source.path source.content) hm
  have hnames : (survey settings fs source).blocks.map (·.name) =
      (members (.ofText source.path source.content)).map (·.symbol) := by
    rw [blocks_survey settings fs source hlive, List.map_map]
    rfl
  rw [mem_uses_iff hle hlt, ← hnames]
  refine and_congr_right fun hmem => and_congr_right fun _ => and_congr_left fun _ => ?_
  exact and_iff_left (isWord_of_mem_names settings fs hlive hmem)

/-- The relations of use, declaration by declaration. Those of a declaration are in ascending order of
the symbols, and there is one for each other declared symbol that begins like a name and that a line
of the declaration names; the relation is stated on the first such line. -/
theorem uses_exact (hlive : source.cancelled = false) :
    ∃ used : Outline → List (String × Nat),
      (survey settings fs source).relationsOf .uses =
        (survey settings fs source).blocks.flatMap (fun o => (used o).map fun u =>
          (source.place settings fs).relation o.name u.1 .uses u.2 []) ∧
      ∀ o ∈ (survey settings fs source).blocks,
        (used o).Pairwise (fun u v => u.1 < v.1) ∧
        ∀ name number, (name, number) ∈ used o ↔
          name ∈ (survey settings fs source).blocks.map (·.name) ∧ name ≠ o.name ∧
            BeginsName name.toList ∧
            IsLeast {n | NamesOn (Text.lines source.content) o name n} number := by
  have hcode := ofText_code_length source.path source.content
  have hmem := @mem_uses_members_iff settings fs source hlive
  rw [blocks_survey settings fs source hlive] at hmem ⊢
  rw [relationsOf_uses settings fs hlive]
  generalize Template.ofText source.path source.content = t at hcode hmem ⊢
  -- a declaration is known by its first line
  let used (o : Outline) : List (String × Nat) :=
    ((members t).filter (·.start + 1 = o.firstLine)).flatMap (uses t ((members t).map (·.symbol)))
  have hused {m : Member} (hm : m ∈ members t) :
      used (outlineOf t m) = uses t ((members t).map (·.symbol)) m := by
    have hself : (members t).filter (fun a => a.start + 1 = (outlineOf t m).firstLine) = [m] := by
      simpa [outlineOf] using (cut_members hcode).filter_start_eq hcode hm
    simp only [used, hself, List.flatMap_singleton]
  refine ⟨used, ?_, ?_⟩
  · rw [List.flatMap_map]
    refine List.flatMap_congr fun m hm => ?_
    rw [hused hm]
    rfl
  · rw [List.forall_mem_map]
    intro m hm
    rw [hused hm]
    exact ⟨pairwise_uses _ _ _, fun name number => hmem hm⟩

end Survey

/-- A variable that names a parameter behind a dot, in a comment, in a literal and in code. -/
def joinedSource : Source where
  path := "main.bicep"
  content := Text.joinLines [
    "param name string", "var joined = \x7b", "  kind: other.name // name", "  title: 'name'",
    "  key: name", "\x7d"]

/-- The parameter is used, and on the line that names it in code. -/
theorem uses_exact_joined :
    ((survey {} {} joinedSource).relationsOf .uses).map (fun rel => (rel.source, rel.target)) =
        [("joined", "name")] ∧
      ∃ o ∈ (survey {} {} joinedSource).blocks, o.name = "joined" ∧
        IsLeast {n | NamesOn (Text.lines joinedSource.content) o "name" n} 5 := by
  have hmem : ("joined", "name", some 5) ∈ ((survey {} {} joinedSource).relationsOf .uses).map
      (fun rel => (rel.source, rel.target, rel.line?)) := by decide +kernel
  obtain ⟨used, hrelations, hused⟩ := @uses_exact {} {} joinedSource rfl
  obtain ⟨rel, hrel, heq⟩ := List.mem_map.mp hmem
  rw [hrelations] at hrel
  obtain ⟨o, ho, hrel⟩ := List.mem_flatMap.mp hrel
  obtain ⟨⟨name, number⟩, hu, rfl⟩ := List.mem_map.mp hrel
  obtain ⟨howner, rfl, rfl⟩ : o.name = "joined" ∧ name = "name" ∧ number = 5 := by simpa using heq
  refine ⟨by decide +kernel, o, ho, howner, ?_⟩
  obtain ⟨-, -, -, hleast⟩ := ((hused o ho).2 "name" 5).mp hu
  exact hleast

/-- A variable with a letter of another script at its start. -/
def foreignSource : Source where
  path := "main.bicep"
  content := Text.joinLines ["var \u00fcber = 1", "var y = \u00fcber"]

/-- The second variable names the first one and does not use it. -/
theorem foreign_name_unused :
    (survey {} {} foreignSource).blocks.map (fun o => (o.name, o.firstLine, o.last)) =
        [("\u00fcber", 1, 1), ("y", 2, 2)] ∧
      NamedIn "\u00fcber" (searched (Text.lines foreignSource.content) 2 2) ∧
      ((survey {} {} foreignSource).relationsOf .uses).map (fun rel => rel.target) = [] := by
  refine ⟨by decide +kernel, ⟨[' '], [], by decide +kernel, ?_, ?_⟩, by decide +kernel⟩
  · rintro c ⟨⟩
    decide
  · rintro c ⟨⟩

end CodeSurvey.Bicep
