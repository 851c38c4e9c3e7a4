import CodeSurvey.Proofs.Project.Legible

/-!
# The package that a tag cites

The package of a reference is found in the text of its attributes where an attribute ends in a word
for what is included, followed by a value in double quotes. If one attribute of a tag does so and no
value looks like such an attribute, what is found is what the tag includes or updates.
-/

namespace CodeSurvey.Project

open Markup (Name Space Attribute Opening Quote localPart isNameChar isSpace isBlank_of_isSpace
  eq_of_append_stop not_isNameChar_head?)
open Detect.Project (packageName)
open Regex

variable {bound : Nat} {o : Opening} {a b : Attribute} {cs rest : List Char}

/-! ## Where no name begins -/

theorem eq_of_mem_words {w : String} (h : w ∈ words) : w = "Include" ∨ w = "Update" := by
  simpa [words] using h

/-- What is read as the start of an attribute that names a package, up to the quote. -/
structure Lead where
  word : String
  before : List Char
  after : List Char
  mem_words : word ∈ words
  blank_before : ∀ c ∈ before, Text.isBlank c = true
  blank_after : ∀ c ∈ after, Text.isBlank c = true

namespace Lead

variable (l : Lead)

def chars : List Char := l.word.toList ++ (l.before ++ '=' :: l.after)

theorem isNameChar_of_mem {c : Char} (h : c ∈ l.word.toList) : isNameChar c = true := by
  have hall : words.all fun w => w.toList.all isNameChar := by decide
  exact List.all_eq_true.mp (List.all_eq_true.mp hall l.word l.mem_words) c h

theorem not_mem_chars {c : Char} (hblank : Text.isBlank c = false) (hword : isNameChar c = false)
    (hc : c ≠ '=') : c ∉ l.chars := by
  rw [chars, List.mem_append, List.mem_append, List.mem_cons]
  rintro (h | h | h | h)
  · rw [l.isNameChar_of_mem h] at hword
    cases hword
  · rw [l.blank_before c h] at hblank
    cases hblank
  · exact hc h
  · rw [l.blank_after c h] at hblank
    cases hblank

end Lead

/-- A name begins with such a start. -/
theorem failsAt_packageName (h : ∀ (l : Lead) (rest : List Char), cs ≠ l.chars ++ '"' :: rest) :
    FailsAt bound packageName cs := by
  intro before index groups
  refine Fails.of_not_reads fun t hread => ?_
  simp only [packageName, reads_all_cons] at hread
  obtain ⟨_, hedge, _, hword, _, hbefore, _, hequals, _, hafter, _, hquote, -⟩ := hread
  obtain ⟨-, rfl⟩ := reads_look.mp hedge
  obtain ⟨_, hmem, hword⟩ := reads_any.mp hword
  obtain ⟨w, hw, rfl⟩ := List.mem_map.mp hmem
  obtain ⟨_, r₁, h₁, rfl, rfl⟩ := (spans_lit w _ _).mp hword
  obtain ⟨b₁, r₂, h₂, hb₁, rfl⟩ := (spans_many _ _ _).mp hbefore
  obtain ⟨_, r₃, h₃, rfl, rfl⟩ := (spans_lit _ _ _).mp hequals
  obtain ⟨b₂, r₄, h₄, hb₂, rfl⟩ := (spans_many _ _ _).mp hafter
  obtain ⟨_, r₅, h₅, rfl, -⟩ := (spans_lit _ _ _).mp hquote
  obtain rfl := (Cursor.rest_past h₁).symm.trans h₂
  obtain rfl := (Cursor.rest_past h₂).symm.trans h₃
  obtain rfl := (Cursor.rest_past h₃).symm.trans h₄
  obtain rfl := (Cursor.rest_past h₄).symm.trans h₅
  apply h ⟨w, b₁, b₂, hw, hb₁, hb₂⟩ r₅
  simpa [Lead.chars] using h₁

/-- No name begins at a character that none of the words begins with. -/
theorem failsAlong_packageName {xs : List Char} (h : ∀ c ∈ xs, c ≠ 'I' ∧ c ≠ 'U') :
    FailsAlong bound packageName xs rest := by
  refine FailsAlong.of_head fun c hc cs => failsAt_packageName ?_
  intro l rest heq
  rw [Lead.chars] at heq
  rcases eq_of_mem_words l.mem_words with hword | hword <;> rw [hword] at heq
  · exact (h c hc).1 (List.cons.inj heq).1
  · exact (h c hc).2 (List.cons.inj heq).1

theorem failsAlong_space (space : Space) (rest : List Char) :
    FailsAlong bound packageName space.chars rest := by
  refine failsAlong_packageName fun c hc => ?_
  have hspace := space.isSpace_of_mem hc
  constructor <;> rintro rfl <;> exact absurd hspace (by decide)

/-- No name begins in that of an attribute which does not end in one of the words. -/
theorem failsAlong_name (hname : ¬ EndsInNaming b.name) (rest : List Char) :
    FailsAlong bound packageName b.name.text.toList
      (b.before.chars ++ '=' :: (b.after.chars ++ (b.quoted ++ rest))) := by
  intro zs hne hsuffix
  apply failsAt_packageName
  intro l rest' heq
  have hplain : ∀ c ∈ zs, isNameChar c = true := fun c hc =>
    List.all_eq_true.mp b.name.plain c (hsuffix.subset hc)
  have hstop := not_isNameChar_head?
    (fun c hc => isBlank_of_isSpace (b.before.isSpace_of_mem hc))
    (by decide : isNameChar '=' = false) (b.after.chars ++ (b.quoted ++ rest))
  have hstop' := not_isNameChar_head? l.blank_before (by decide : isNameChar '=' = false)
    (l.after ++ '"' :: rest')
  have hword : zs = l.word.toList := by
    refine eq_of_append_stop hplain (fun c hc => l.isNameChar_of_mem hc) hstop hstop' ?_
    simpa [Lead.chars] using heq
  exact hname ⟨l.word, l.mem_words, hword ▸ hsuffix⟩

theorem endsWith_trimEnd {value : String} {after : List Char}
    (hsuffix : '=' :: after <:+ value.toList) (hafter : ∀ c ∈ after, Text.isBlank c = true) :
    Text.endsWith "=" (Text.trimEnd value) = true := by
  obtain ⟨before, hbefore⟩ := hsuffix
  have hreverse : value.toList.reverse = after.reverse ++ '=' :: before.reverse := by
    rw [← hbefore]
    simp
  have htrim : Text.dropEndWhile Text.isBlank value.toList = before ++ ['='] := by
    rw [Text.dropEndWhile, hreverse, Markup.dropWhile_append_stop
      (fun c hc => hafter c (List.mem_reverse.mp hc)) (by rintro c ⟨⟩; decide)]
    simp
  have hchars : (Text.trimEnd value).toList = before ++ ['='] := by
    rw [Text.trimEnd, Text.trimEndWhere, htrim, String.toList_ofList]
  rw [Text.endsWith, List.isSuffixOf_iff_suffix, hchars]
  exact List.suffix_append before ['=']

/-- No name begins in a value that does not end in an equals sign. -/
theorem failsAlong_value (hvalue : ClearValue b.value) :
    FailsAlong bound packageName b.value.toList (b.quote.char :: rest) := by
  intro zs hne hsuffix
  apply failsAt_packageName
  intro l rest' heq
  have hquote : b.quote.char ∉ l.chars := by
    apply l.not_mem_chars <;> cases b.quote <;> decide
  have hends (h : zs = l.chars) : False := by
    have hequals : '=' :: l.after <:+ l.chars :=
      (List.suffix_append l.before _).trans (List.suffix_append l.word.toList _)
    have htrue := endsWith_trimEnd (hequals.trans (h ▸ hsuffix)) l.blank_after
    rw [hvalue.2.2] at htrue
    cases htrue
  rcases List.append_eq_append_iff.mp heq with ⟨as, has, hrest⟩ | ⟨bs, hbs, hrest⟩
  · cases as with
    | nil => exact hends (by simpa using has.symm)
    | cons x as =>
      obtain ⟨rfl, -⟩ := List.cons.inj hrest
      exact hquote (has ▸ by simp)
  · cases bs with
    | nil => exact hends (by simpa using hbs)
    | cons x bs =>
      obtain ⟨rfl, -⟩ := List.cons.inj hrest
      exact hvalue.2.1 (hsuffix.subset (hbs ▸ by simp))

/-- No name begins in an attribute that does not name a package. -/
theorem failsAlong_attribute (hname : ¬ EndsInNaming b.name) (hvalue : ClearValue b.value)
    (rest : List Char) : FailsAlong bound packageName b.chars rest := by
  have hsign {c : Char} (hc : c ≠ 'I' ∧ c ≠ 'U') (rest : List Char) :
      FailsAlong bound packageName [c] rest :=
    failsAlong_packageName (by simpa using hc)
  have hquote : b.quote.char ≠ 'I' ∧ b.quote.char ≠ 'U' := by cases b.quote <;> decide
  have hkey : FailsAlong bound packageName b.key (b.quoted ++ rest) := by
    refine (failsAlong_space b.gap _).append (FailsAlong.append ?_
      ((failsAlong_space b.before _).append ((hsign (by decide) _).append
        (failsAlong_space b.after _))))
    simpa using failsAlong_name hname rest
  refine hkey.append ((hsign hquote _).append (FailsAlong.append ?_ (hsign hquote rest)))
  exact failsAlong_value hvalue

/-! ## The name -/

theorem takes_word {s : Cursor} (hmem : a.name.text ∈ words)
    (hrest : s.rest = a.name.text.toList ++ rest) :
    Takes bound (oneOf words) s (s.past a.name.text.toList) := by
  have hword : Takes bound (lit a.name.text) s (s.past a.name.text.toList) :=
    (Only.lit hrest).takes
  rcases eq_of_mem_words hmem with hname | hname <;> rw [hname] at hword hrest ⊢
  · exact Takes.any_cons hword
  · refine Takes.any_tail (Fails.lit ?_) (Takes.any_cons hword)
    rw [hrest]
    exact not_prefix_of_clash (by decide) rest

theorem takes_blanks {s : Cursor} (space : Space) {stop : Char} (hstop : Text.isBlank stop = false)
    (hrest : s.rest = space.chars ++ stop :: rest) (hbound : space.chars.length ≤ bound) :
    Takes bound blanks s (s.past space.chars) := by
  refine Takes.many_set hrest (fun c hc => isBlank_of_isSpace (space.isSpace_of_mem hc)) ?_ hbound
  rintro c ⟨⟩
  exact hstop

/-- A value in double quotes is captured as a whole. -/
theorem takes_value {s : Cursor} {value : String} (hvalue : value ≠ "") (hplain : '"' ∉ value.toList)
    (hrest : s.rest = '"' :: (value.toList ++ '"' :: rest)) (hbound : value.toList.length ≤ bound) :
    Takes bound (all [lit "\"", group 1 (plus (set (.notChars "\""))), lit "\""]) s
      ((((s.past "\"".toList).past value.toList).capture (s.past "\"".toList) 1).past
        "\"".toList) := by
  have hopen : Only bound (lit "\"") s (s.past "\"".toList) := Only.lit hrest
  have hinside : (s.past "\"".toList).rest = value.toList ++ '"' :: rest := Cursor.rest_past hrest
  have hends : (((s.past "\"".toList).past value.toList).capture (s.past "\"".toList) 1).rest =
      '"' :: rest := Cursor.rest_past hinside
  have hclose : Only bound (lit "\"") _ _ := Only.lit hends
  refine hopen.takes.seq (Takes.seq (Takes.group ?_ 1) (hclose.takes.seq (Takes.empty _)))
  refine Takes.plus_set ?_ hinside ?_ ?_ hbound
  · exact fun hnil => hvalue (String.toList_inj.mp hnil)
  · intro c hc
    have hne : '"' ≠ c := fun heq => hplain (heq ▸ hc)
    simp [CharClass.notChars, CharClass.chars, CharClass.anyOf, CharClass.has, hne]
  · rintro c ⟨⟩
    decide

/-- The attribute that names the package is matched, and its value captured. -/
theorem takes_packageName {s : Cursor} (hnames : Names o a)
    (hbefore : s.before.any Text.isWord = false)
    (hrest : s.rest = a.name.text.toList ++
      (a.before.chars ++ '=' :: (a.after.chars ++ (a.quoted ++ rest))))
    (hbound : s.rest.length ≤ bound) :
    ∃ t, Takes bound packageName s t ∧
      ∃ index, t.groups = (1, ⟨index, a.value.toList⟩) :: s.groups := by
  obtain ⟨hmem, hquote, hvalue, -, -⟩ := hnames
  have hplain : '"' ∉ a.value.toList := by simpa [hquote, Quote.char] using a.plain.1
  have hquoted : a.quoted ++ rest = '"' :: (a.value.toList ++ '"' :: rest) := by
    simp [Attribute.quoted, hquote, Quote.char]
  rw [hquoted] at hrest
  have hlength : a.before.chars.length ≤ bound ∧ a.after.chars.length ≤ bound ∧
      a.value.toList.length ≤ bound := by
    rw [hrest] at hbound
    simp only [List.length_append, List.length_cons] at hbound
    omega
  have hedge : Anchor.holds .wordEdge s = true := by
    rw [Anchor.holds, hbefore, hrest]
    rcases eq_of_mem_words hmem with hname | hname <;> rw [hname] <;> rfl
  have hword := Cursor.rest_past hrest
  have hequals := Cursor.rest_past hword
  have hsign : Only bound (lit "=") _ _ := Only.lit hequals
  have hafter : (((s.past a.name.text.toList).past a.before.chars).past "=".toList).rest =
      a.after.chars ++ '"' :: (a.value.toList ++ '"' :: rest) := Cursor.rest_past hequals
  have hopen := Cursor.rest_past hafter
  refine ⟨_, (Only.look hedge).takes.seq ((takes_word hmem hrest).seq
    ((takes_blanks a.before (by decide) hword hlength.1).seq (hsign.takes.seq
      ((takes_blanks a.after (by decide) hafter hlength.2.1).seq
        (takes_value hvalue hplain hopen hlength.2.2))))), ?_⟩
  have hinside : (((((s.past a.name.text.toList).past a.before.chars).past "=".toList).past
      a.after.chars).past "\"".toList).rest = a.value.toList ++ '"' :: rest := Cursor.rest_past hopen
  rw [Cursor.capture_past hinside]
  simp

/-- Before the attribute that names the package no other one does. -/
theorem Names.not_endsInNaming {pre post : List Attribute} (hnames : Names o a)
    (hattributes : o.attributes = pre ++ a :: post) (hb : b ∈ pre) : ¬ EndsInNaming b.name := by
  intro hends
  have hdistinct := o.distinct
  rw [hattributes, List.map_append, List.nodup_append] at hdistinct
  have hsame : b.name.text = a.name.text :=
    hnames.2.2.2.2 b (hattributes ▸ List.mem_append_left _ hb) hends
  exact hdistinct.2.2 _ (List.mem_map_of_mem hb) _ (by simp) hsame

/-- The name that is found in the text of a tag is that of its package. -/
theorem group_find?_packageName (hciting : Citing o) (ha : a ∈ o.attributes) (hnames : Names o a) :
    (packageName.find? (String.ofList o.inside)).map (·.group 1) = some a.value := by
  obtain ⟨pre, post, hattributes⟩ := List.append_of_mem ha
  have hpre : ∀ b ∈ pre, ∀ rest,
      FailsAlong (String.ofList o.inside).length packageName b.chars rest := fun b hb rest =>
    failsAlong_attribute (hnames.not_endsInNaming hattributes hb)
      (hciting.2 b (hattributes ▸ List.mem_append_left _ hb)) rest
  -- up to the attribute that names the package nothing is found
  have hskip := (FailsAlong.flatMap hpre _).append (failsAlong_space a.gap
    (a.name.text.toList ++ (a.before.chars ++ '=' :: (a.after.chars ++ (a.quoted ++
      (post.flatMap Attribute.chars ++ o.tail.chars))))))
  have hinside : (Cursor.ofChars (String.ofList o.inside).toList).rest =
      (pre.flatMap Attribute.chars ++ a.gap.chars) ++ (a.name.text.toList ++ (a.before.chars ++
        '=' :: (a.after.chars ++ (a.quoted ++
          (post.flatMap Attribute.chars ++ o.tail.chars))))) := by
    simp [Cursor.ofChars, Opening.inside, hattributes, Attribute.chars, Attribute.key]
  let s : Cursor := (Cursor.ofChars (String.ofList o.inside).toList).past
    (pre.flatMap Attribute.chars ++ a.gap.chars)
  have hbefore : s.before.any Text.isWord = false := by
    obtain ⟨gap, c, hgap⟩ := (List.eq_nil_or_concat a.gap.chars).resolve_left a.apart
    rw [List.concat_eq_append] at hgap
    have hc : isSpace c = true := a.gap.isSpace_of_mem (by rw [hgap]; simp)
    simp only [s, hgap]
    rw [← List.append_assoc, Cursor.before_past_concat, Option.any_some, not_isWord_of_isSpace hc]
  have hlength : s.rest.length ≤ (String.ofList o.inside).length := by
    refine (Cursor.length_rest_past_le _ _).trans (le_of_eq ?_)
    exact String.length_toList
  obtain ⟨t, htakes, index, hgroups⟩ := takes_packageName (s := { s with groups := [] }) hnames
    hbefore (Cursor.rest_past hinside) hlength
  rw [Regex.find?, hskip.search_eq hinside, htakes.search]
  simp [Match.group, Match.group?, hgroups, List.lookup]

/-- An attribute whose name is read as one of the words is the one that names the package. -/
theorem Names.eq_of_localPart (hnames : Names o a) (ha : a ∈ o.attributes) (hb : b ∈ o.attributes)
    (hword : localPart b.name.text ∈ words) : b = a := by
  have hends : EndsInNaming b.name := ⟨_, hword, Markup.localPart_suffix b.name.text⟩
  exact List.inj_on_of_nodup_map o.distinct hb ha (hnames.2.2.2.2 b hb hends)

/-- What a tag includes or updates is what its naming attribute says. -/
theorem included?_eq (ha : a ∈ o.attributes) (hnames : Names o a) : included? o = some a.value := by
  have hdecoded : a.decoded = a.value :=
    Except.ok.inj (a.decodes.symm.trans (Markup.unescape_of_not_mem hnames.2.2.2.1))
  have hlocal : localPart a.name.text = a.name.text := by
    rcases eq_of_mem_words hnames.1 with hname | hname <;> rw [hname] <;> rfl
  have hvalue (w : String) (hw : w ∈ words) (hname : a.name.text = w) :
      valueOf? o w = some a.value := by
    cases hfind : o.attributes.find? (fun b => localPart b.name.text = w) with
    | none =>
      exact absurd (decide_eq_true (hlocal.trans hname)) (List.find?_eq_none.mp hfind a ha)
    | some b =>
      have hb : localPart b.name.text = w := by simpa using List.find?_some hfind
      obtain rfl := hnames.eq_of_localPart ha (List.mem_of_find?_eq_some hfind) (hb ▸ hw)
      rw [valueOf?, hfind, Option.map_some, hdecoded]
  rcases eq_of_mem_words hnames.1 with hname | hname
  · rw [included?, hvalue "Include" (by decide) hname]
    rfl
  · have hnone : valueOf? o "Include" = none := by
      rw [valueOf?, Option.map_eq_none_iff, List.find?_eq_none]
      intro b hb hinclude
      have hb' : localPart b.name.text = "Include" := by simpa using hinclude
      obtain rfl := hnames.eq_of_localPart ha hb (by rw [hb']; decide)
      rw [hlocal, hname] at hb'
      exact absurd hb' (by decide)
    rw [included?, hnone, hvalue "Update" (by decide) hname]
    rfl

/-- The name that is found in the text of a tag is what the tag includes or updates. -/
theorem Citing.group_find? (hciting : Citing o) :
    (packageName.find? (String.ofList o.inside)).map (·.group 1) = included? o := by
  obtain ⟨a, ha, hnames⟩ := hciting.1
  rw [group_find?_packageName hciting ha hnames, included?_eq ha hnames]

end CodeSurvey.Project
