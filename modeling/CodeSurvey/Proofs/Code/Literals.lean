import CodeSurvey.Code.CodeLine
import Mathlib.Data.List.Infix
import Mathlib.Data.List.Sublists

/-!
# Code outside of literals and comments

A line is read from left to right: a quote begins a literal, which ends at the same quote. What is left
of the line as code are the characters outside of literals, the quotes and nothing of a comment. Where
comments begin with `//`, both quotes begin literals and a backslash takes the next character with it.
Where they begin with an apostrophe, only the other quote does, and a backslash is a character like any
other. A character of the code that is no quote stands in the line behind whole literals and other code.
-/

namespace CodeSurvey.Code

/-! ## Marks of comments -/

/-- The code of a text is a part of the text. -/
theorem codeChars_sublist (comment : List Char) (quote : Option Char) (cs : List Char) :
    (codeChars comment quote cs).Sublist cs := by
  fun_induction codeChars comment quote cs with
  | case1 => exact .slnil
  | case2 => exact List.nil_sublist _
  | case3 c q hescape x cs ih => exact (ih.cons x).cons c
  | case4 c cs q hescape hclose ih => exact ih.cons_cons c
  | case5 c cs q hescape hclose ih => exact ih.cons c
  | case6 => exact List.nil_sublist _
  | case7 c _ _ _ ih | case8 c _ _ _ ih => exact ih.cons_cons c

/-- What comments begin with: two slashes or an apostrophe. -/
inductive Marking where
  | slashes
  | apostrophe
  deriving Repr, DecidableEq

namespace Marking

def mark : Marking → String
  | slashes => "//"
  | apostrophe => "'"

def quotes : Marking → List Char
  | slashes => ['"', '\'']
  | apostrophe => ['"']

/-- What is left of a text as code, where a literal with this quote is open. -/
abbrev read (m : Marking) (quote : Option Char) (cs : List Char) : List Char :=
  codeChars m.mark.toList quote cs

theorem toList_codeLine (m : Marking) (line : String) :
    (codeLine m.mark line).toList = m.read none line.toList :=
  String.toList_ofList

/-- The inside of a literal, as far as it has been read. -/
inductive Inside (m : Marking) (quote : Char) : List Char → Prop
  | nil : Inside m quote []
  | escape (hm : m = slashes) (c : Char) {cs : List Char} (h : Inside m quote cs) :
      Inside m quote ('\\' :: c :: cs)
  | char {c : Char} {cs : List Char} (hescape : m = slashes → c ≠ '\\') (hquote : c ≠ quote)
      (h : Inside m quote cs) : Inside m quote (c :: cs)

/-- A text after which reading is outside of literals and has met no comment. -/
inductive Outside (m : Marking) : List Char → Prop
  | nil : Outside m []
  | char {c : Char} {cs : List Char} (hquote : c ∉ m.quotes) (hmark : ¬ m.mark.toList <+: c :: cs)
      (h : Outside m cs) : Outside m (c :: cs)
  | literal {quote : Char} {inside cs : List Char} (hquote : quote ∈ m.quotes)
      (hinside : Inside m quote inside) (h : Outside m cs) :
      Outside m (quote :: (inside ++ quote :: cs))

variable {m : Marking} {c quote : Char} {cs rest inside before : List Char}

/-- Whether a comment begins depends on the first two characters alone. -/
theorem mark_prefix_of_head? {xs ys : List Char} (h : m.mark.toList <+: c :: xs)
    (hhead : ∀ x ∈ m.mark.toList, xs.head? = some x → ys.head? = some x) :
    m.mark.toList <+: c :: ys := by
  cases m with
  | apostrophe => simpa [mark] using h
  | slashes =>
    obtain ⟨rfl, hxs⟩ := List.cons_prefix_cons.mp h
    have hys : ys.head? = some '/' := by
      refine hhead '/' (by decide) ?_
      obtain ⟨tail, rfl⟩ := hxs
      rfl
    obtain ⟨tail, rfl⟩ := List.head?_eq_some_iff.mp hys
    exact List.cons_prefix_cons.mpr ⟨rfl, ⟨tail, rfl⟩⟩

theorem read_comment (h : m.mark.toList <+: c :: cs) : m.read none (c :: cs) = [] := by
  rw [read, codeChars.eq_def]
  exact if_pos (List.isPrefixOf_iff_prefix.mpr h)

theorem read_char (hquote : c ∉ m.quotes) (hmark : ¬ m.mark.toList <+: c :: cs) :
    m.read none (c :: cs) = c :: m.read none cs := by
  have hmark' : ¬ m.mark.toList.isPrefixOf (c :: cs) = true :=
    fun h => hmark (List.isPrefixOf_iff_prefix.mp h)
  rw [read, codeChars.eq_def]
  dsimp only
  rw [if_neg hmark', if_neg]
  cases m <;> simp_all [quotes, mark]

theorem read_quote (hquote : quote ∈ m.quotes) (cs : List Char) :
    m.read none (quote :: cs) = quote :: m.read (some quote) cs := by
  rw [read, codeChars.eq_def]
  cases m with
  | slashes =>
    have hcases : quote = '"' ∨ quote = '\'' := by simpa [quotes] using hquote
    rcases hcases with rfl | rfl <;> rfl
  | apostrophe =>
    obtain rfl : quote = '"' := by simpa [quotes] using hquote
    rfl

theorem read_close (hquote : quote ∈ m.quotes) (cs : List Char) :
    m.read (some quote) (quote :: cs) = quote :: m.read none cs := by
  have hescape : quote ≠ '\\' := by
    rintro rfl
    cases m <;> exact absurd hquote (by decide)
  rw [read, codeChars.eq_def]
  simp [hescape]

theorem read_escape (c : Char) (cs : List Char) :
    slashes.read (some quote) ('\\' :: c :: cs) = slashes.read (some quote) cs := by
  rw [read, codeChars.eq_def]
  rfl

theorem read_skip (hescape : m = slashes → c ≠ '\\') (hquote : c ≠ quote) (cs : List Char) :
    m.read (some quote) (c :: cs) = m.read (some quote) cs := by
  rw [read, codeChars.eq_def]
  cases m with
  | slashes => simp [hescape rfl, hquote]
  | apostrophe => simp [hquote, mark, read]

/-- Reading a literal leaves its closing quote and what follows. -/
theorem read_inside (h : m.Inside quote inside) (hquote : quote ∈ m.quotes) (rest : List Char) :
    m.read (some quote) (inside ++ quote :: rest) = quote :: m.read none rest := by
  induction h with
  | nil => exact read_close hquote rest
  | escape hm c h ih =>
    subst hm
    exact (read_escape c _).trans ih
  | char hescape hne h ih => exact (read_skip hescape hne _).trans ih

/-- A literal leaves its quotes alone. -/
theorem read_literal (hquote : quote ∈ m.quotes) (hinside : m.Inside quote inside) (cs : List Char) :
    m.read none (quote :: (inside ++ quote :: cs)) = quote :: quote :: m.read none cs := by
  rw [read_quote hquote, read_inside hinside hquote]

/-- Behind code the text is read anew, unless a comment begins across. -/
theorem Outside.read_append (h : m.Outside before) (hrest : ∀ x ∈ rest.head?, x ∉ m.mark.toList) :
    m.read none (before ++ rest) = m.read none before ++ m.read none rest := by
  induction h with
  | nil => rfl
  | @char c cs hquote hmark h ih =>
    have hmark' : ¬ m.mark.toList <+: c :: (cs ++ rest) := by
      refine fun hbegins => hmark (mark_prefix_of_head? hbegins fun x hx hhead => ?_)
      cases cs with
      | nil => exact absurd hx (hrest x hhead)
      | cons y cs => exact hhead
    rw [List.cons_append, read_char hquote hmark', ih, read_char hquote hmark, List.cons_append]
  | literal hquote hinside h ih =>
    rw [List.cons_append, List.append_assoc, List.cons_append, read_literal hquote hinside,
      read_literal hquote hinside, ih, List.cons_append, List.cons_append]

/-- Characters that begin neither literals nor comments are left as they are. -/
theorem read_plain_append (h : ∀ c ∈ before, c ∉ m.quotes ∧ c ∉ m.mark.toList) (rest : List Char) :
    m.read none (before ++ rest) = before ++ m.read none rest := by
  induction before with
  | nil => rfl
  | cons c before ih =>
    obtain ⟨⟨hquote, hc⟩, hbefore⟩ := List.forall_mem_cons.mp h
    have hmark : ¬ m.mark.toList <+: c :: (before ++ rest) := by
      intro hbegins
      cases m <;> exact hc ((List.cons_prefix_cons.mp hbegins).1 ▸ List.mem_cons_self)
    rw [List.cons_append, read_char hquote hmark, ih hbefore, List.cons_append]

theorem codeLine_of_plain {line : String} (h : ∀ c ∈ line.toList, c ∉ m.quotes ∧ c ∉ m.mark.toList) :
    codeLine m.mark line = line := by
  have hread := read_plain_append h []
  rw [List.append_nil] at hread
  rw [← String.toList_inj, toList_codeLine, hread]
  exact List.append_nil _

/-- The code of a text begins with the first character of it, if it does not begin with a comment. -/
theorem head?_read (m : Marking) (text : List Char) :
    (m.read none text).head? = text.head? ∨ m.read none text = [] ∧ m.mark.toList <+: text := by
  cases text with
  | nil => exact .inl rfl
  | cons c cs =>
    by_cases hmark : m.mark.toList <+: c :: cs
    · exact .inr ⟨read_comment hmark, hmark⟩
    · by_cases hquote : c ∈ m.quotes
      · exact .inl (by rw [read_quote hquote]; rfl)
      · exact .inl (by rw [read_char hquote hmark]; rfl)

end Marking

/-! ## Literals and code -/

inductive Inside (quote : Char) : List Char → Prop
  | nil : Inside quote []
  | escape (c : Char) {cs : List Char} (h : Inside quote cs) : Inside quote ('\\' :: c :: cs)
  | char {c : Char} {cs : List Char} (hescape : c ≠ '\\') (hquote : c ≠ quote)
      (h : Inside quote cs) : Inside quote (c :: cs)

/-- A character begins a literal, and ends one that it has begun. -/
def IsQuote (c : Char) : Prop := c = '"' ∨ c = '\''

instance (c : Char) : Decidable (IsQuote c) := inferInstanceAs (Decidable (_ ∨ _))

/-- A text that is code up to its end: whole literals and characters that begin neither a literal nor
a comment. -/
inductive InCode : List Char → Prop
  | nil : InCode []
  | char {c : Char} {cs : List Char} (hquote : ¬ IsQuote c) (hmark : ¬ ['/', '/'] <+: c :: cs)
      (h : InCode cs) : InCode (c :: cs)
  | literal {quote : Char} {inside cs : List Char} (hquote : IsQuote quote)
      (hinside : Inside quote inside) (h : InCode cs) : InCode (quote :: (inside ++ quote :: cs))

def codeOf (cs : List Char) : List Char := codeChars "//".toList none cs

section Reading

variable {c quote : Char} {cs rest inside before after : List Char}

@[simp] theorem codeOf_nil : codeOf [] = [] := rfl

theorem mem_quotes_slashes : c ∈ Marking.slashes.quotes ↔ IsQuote c := by
  simp [Marking.quotes, IsQuote]

theorem codeOf_comment (h : ['/', '/'] <+: c :: cs) : codeOf (c :: cs) = [] :=
  Marking.read_comment (m := .slashes) h

theorem codeOf_cons (hquote : ¬ IsQuote c) (hmark : ¬ ['/', '/'] <+: c :: cs) :
    codeOf (c :: cs) = c :: codeOf cs :=
  Marking.read_char (mem_quotes_slashes.not.mpr hquote) hmark

theorem codeOf_quote (hquote : IsQuote quote) (cs : List Char) :
    codeOf (quote :: cs) = quote :: Marking.slashes.read (some quote) cs :=
  Marking.read_quote (mem_quotes_slashes.mpr hquote) cs

theorem Inside.marked (h : Inside quote inside) : Marking.slashes.Inside quote inside := by
  induction h with
  | nil => exact .nil
  | escape c h ih => exact .escape rfl c ih
  | char hescape hne h ih => exact .char (fun _ => hescape) hne ih

theorem InCode.outside (h : InCode cs) : Marking.slashes.Outside cs := by
  induction h with
  | nil => exact .nil
  | char hquote hmark h ih => exact .char (mem_quotes_slashes.not.mpr hquote) hmark ih
  | literal hquote hinside h ih => exact .literal (mem_quotes_slashes.mpr hquote) hinside.marked ih

/-- A literal is read to its end, or the text leaves it open. -/
theorem exists_inside_of_codeChars (h : Marking.slashes.read (some quote) cs ≠ []) :
    ∃ inside rest, Inside quote inside ∧ cs = inside ++ quote :: rest := by
  -- an escape takes two characters, so the induction is on the length
  induction hn : cs.length using Nat.strong_induction_on generalizing cs with
  | _ n ih =>
    cases cs with
    | nil => exact absurd rfl h
    | cons c cs =>
      by_cases hescape : c = '\\'
      · subst hescape
        cases cs with
        | nil => exact absurd rfl h
        | cons x cs =>
          rw [Marking.read_escape] at h
          obtain ⟨inside, rest, hinside, rfl⟩ := ih cs.length (by rw [← hn]; exact Nat.lt_add_of_pos_right Nat.two_pos) h rfl
          exact ⟨_, rest, .escape x hinside, rfl⟩
      · by_cases hclose : c = quote
        · exact ⟨[], cs, .nil, by rw [hclose]; rfl⟩
        · rw [Marking.read_skip (fun _ => hescape) hclose] at h
          obtain ⟨inside, rest, hinside, rfl⟩ := ih cs.length (by simp [← hn]) h rfl
          exact ⟨_, rest, .char hescape hclose hinside, rfl⟩

/-- A literal that is left open has nothing of its inside in the code. -/
theorem codeChars_open (h : Inside quote inside) : Marking.slashes.read (some quote) inside = [] := by
  induction h with
  | nil => rfl
  | escape c h ih => exact (Marking.read_escape c _).trans ih
  | char hescape hne h ih => exact (Marking.read_skip (fun _ => hescape) hne _).trans ih

theorem Inside.append (h : Inside quote inside) (hrest : Inside quote rest) :
    Inside quote (inside ++ rest) := by
  induction h with
  | nil => exact hrest
  | escape c h ih => exact .escape c ih
  | char hescape hne h ih => exact .char hescape hne ih

theorem codeOf_literal (hquote : IsQuote quote) (hinside : Inside quote inside) (cs : List Char) :
    codeOf (quote :: (inside ++ quote :: cs)) = quote :: quote :: codeOf cs :=
  Marking.read_literal (mem_quotes_slashes.mpr hquote) hinside.marked cs

end Reading

/-! ## The code of a text, piece by piece -/

section Pieces

variable {c quote : Char} {cs rest inside before after text b a : List Char}

/-- Behind code the text is read anew. -/
theorem InCode.codeOf_append (h : InCode before) (hrest : rest.head? ≠ some '/') :
    codeOf (before ++ rest) = codeOf before ++ codeOf rest := by
  refine h.outside.read_append fun x hx hmark => hrest ?_
  obtain rfl : x = '/' := by simpa [Marking.mark] using hmark
  exact hx

/-- Code ends with the last character of its text. -/
theorem InCode.getLast?_codeOf (h : InCode before) : (codeOf before).getLast? = before.getLast? := by
  induction h with
  | nil => rfl
  | char hquote hmark h ih => rw [codeOf_cons hquote hmark, List.getLast?_cons, List.getLast?_cons, ih]
  | literal hquote hinside h ih =>
    rw [codeOf_literal hquote hinside]
    simp [List.getLast?_cons, List.getLast?_append, ih]

/-- The text behind a quote that has not been closed is no code. -/
theorem not_inCode_of_inside (h : InCode before) (hquote : IsQuote quote)
    (hinside : Inside quote inside) : ¬ InCode (before ++ quote :: inside) := by
  intro hcode
  have hopen {inside : List Char} (hinside : Inside quote inside) :
      codeOf (before ++ quote :: inside) = codeOf before ++ [quote] := by
    have hhead : (quote :: inside).head? ≠ some '/' := by
      rcases hquote with rfl | rfl <;> simp
    rw [h.codeOf_append hhead, codeOf_quote hquote, codeChars_open hinside]
  have hplain : Inside quote ['='] := by
    refine .char (by decide) ?_ .nil
    rcases hquote with rfl | rfl <;> decide
  -- an equals sign behind it would be code, and lies in the literal
  have hsign : codeOf ['='] = ['='] := by decide
  have hlonger : codeOf ((before ++ quote :: inside) ++ ['=']) = _ :=
    hcode.codeOf_append (by decide)
  rw [List.append_assoc, List.cons_append, hopen hinside, hopen (hinside.append hplain),
    hsign] at hlonger
  simp at hlonger

/-- A character of the code that is no quote stands behind code. -/
theorem exists_of_codeOf_eq (hc : ¬ IsQuote c) (h : codeOf text = b ++ c :: a) :
    ∃ before after, text = before ++ c :: after ∧ InCode before ∧ codeOf before = b ∧
      codeOf after = a := by
  induction hn : text.length using Nat.strong_induction_on generalizing text b with
  | _ n ih =>
    cases text with
    | nil => simp at h
    | cons x xs =>
      by_cases hmark : ['/', '/'] <+: x :: xs
      · simp [codeOf_comment hmark] at h
      · by_cases hquote : IsQuote x
        · rw [codeOf_quote hquote] at h
          cases b with
          | nil => exact absurd ((List.cons.inj h).1 ▸ hquote) hc
          | cons y b =>
            obtain ⟨rfl, hinner⟩ := List.cons.inj h
            have hne : Marking.slashes.read (some x) xs ≠ [] :=
              hinner ▸ List.append_ne_nil_of_right_ne_nil b (List.cons_ne_nil c a)
            obtain ⟨inside, rest, hinside, rfl⟩ := exists_inside_of_codeChars hne
            rw [Marking.read_inside hinside.marked (mem_quotes_slashes.mpr hquote)] at hinner
            cases b with
            | nil => exact absurd ((List.cons.inj hinner).1 ▸ hquote) hc
            | cons z b =>
              obtain ⟨rfl, hrest⟩ := List.cons.inj hinner
              have hless : rest.length < n := by
                simp only [← hn, List.length_cons, List.length_append]
                omega
              obtain ⟨before, after, rfl, hcode, rfl, rfl⟩ := ih _ hless hrest rfl
              exact ⟨x :: (inside ++ x :: before), after, by simp,
                .literal hquote hinside hcode, codeOf_literal hquote hinside before, rfl⟩
        · rw [codeOf_cons hquote hmark] at h
          cases b with
          | nil =>
            obtain ⟨rfl, hrest⟩ := List.cons.inj h
            exact ⟨[], xs, rfl, .nil, rfl, hrest⟩
          | cons y b =>
            obtain ⟨rfl, hrest⟩ := List.cons.inj h
            obtain ⟨before, after, rfl, hcode, rfl, rfl⟩ := ih xs.length (by simp [← hn]) hrest rfl
            have hmark' : ¬ ['/', '/'] <+: x :: before := by
              intro hbegins
              exact hmark (hbegins.trans (List.prefix_append (x :: before) _))
            exact ⟨x :: before, after, rfl, .char hquote hmark' hcode,
              codeOf_cons hquote hmark', rfl⟩

/-- A character that begins neither a literal nor a comment is in the code where it stands behind
code. -/
theorem mem_codeOf_iff (hc : ¬ IsQuote c) (hmark : c ≠ '/') :
    c ∈ codeOf text ↔ ∃ before after, text = before ++ c :: after ∧ InCode before := by
  constructor
  · intro h
    obtain ⟨b, a, hcode⟩ := List.append_of_mem h
    obtain ⟨before, after, htext, hbefore, -, -⟩ := exists_of_codeOf_eq hc hcode
    exact ⟨before, after, htext, hbefore⟩
  · rintro ⟨before, after, rfl, hbefore⟩
    have hmark' : ¬ ['/', '/'] <+: c :: after := by simp [Ne.symm hmark]
    rw [hbefore.codeOf_append (by simpa using hmark), codeOf_cons hc hmark']
    simp

theorem head?_codeOf (text : List Char) :
    (codeOf text).head? = text.head? ∨ (codeOf text).head? = none ∧ text.head? = some '/' := by
  rcases Marking.slashes.head?_read text with h | ⟨hnone, tail, rfl⟩
  · exact .inl h
  · exact .inr ⟨congrArg List.head? hnone, rfl⟩

end Pieces

/-! ## Words of the code -/

section Words

variable {word text b a before after : List Char}

theorem codeOf_plain_append (h : ∀ c ∈ word, ¬ IsQuote c ∧ c ≠ '/') (after : List Char) :
    codeOf (word ++ after) = word ++ codeOf after := by
  refine Marking.read_plain_append (m := .slashes) (fun c hc => ?_) after
  simpa [mem_quotes_slashes, Marking.mark] using h c hc

theorem exists_of_codeOf_eq_append (h : ∀ c ∈ word, ¬ IsQuote c) (hcode : codeOf text = word ++ a) :
    ∃ after, text = word ++ after ∧ codeOf after = a := by
  induction word generalizing text with
  | nil => exact ⟨text, rfl, hcode⟩
  | cons c word ih =>
    obtain ⟨hquote, hword⟩ := List.forall_mem_cons.mp h
    obtain ⟨before, rest, rfl, hbefore, hnone, hrest⟩ :=
      exists_of_codeOf_eq (b := []) hquote hcode
    obtain rfl : before = [] := by
      rw [← List.getLast?_eq_none_iff, ← hbefore.getLast?_codeOf, hnone, List.getLast?_nil]
    obtain ⟨after, rfl, hafter⟩ := ih hword hrest
    exact ⟨after, rfl, hafter⟩

/-- A text of plain characters stands in the code where it stands behind code. -/
theorem codeOf_eq_iff (hne : word ≠ []) (h : ∀ c ∈ word, ¬ IsQuote c ∧ c ≠ '/') :
    codeOf text = b ++ (word ++ a) ↔
      ∃ before after, text = before ++ (word ++ after) ∧ InCode before ∧ codeOf before = b ∧
        codeOf after = a := by
  constructor
  · intro hcode
    obtain ⟨c, cs, rfl⟩ := List.exists_cons_of_ne_nil hne
    obtain ⟨hc, hcs⟩ := List.forall_mem_cons.mp h
    obtain ⟨before, rest, rfl, hbefore, hb, hrest⟩ := exists_of_codeOf_eq hc.1 hcode
    obtain ⟨after, rfl, hafter⟩ := exists_of_codeOf_eq_append (fun x hx => (hcs x hx).1) hrest
    exact ⟨before, after, rfl, hbefore, hb, hafter⟩
  · rintro ⟨before, after, rfl, hbefore, rfl, rfl⟩
    have hhead : (word ++ after).head? ≠ some '/' := by
      obtain ⟨c, cs, rfl⟩ := List.exists_cons_of_ne_nil hne
      simpa using (h c List.mem_cons_self).2
    rw [hbefore.codeOf_append hhead, codeOf_plain_append h]

end Words

end CodeSurvey.Code
