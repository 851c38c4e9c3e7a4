import CodeSurvey.Markup.Reader
import Mathlib

/-!
# Markup as it is written

Well-formed markup without comments and character data is a tree of elements with texts between them,
written out with all its blanks and quotes. Reading what is written meets the pieces of the tree in
order, ends without a fault, and finds the attributes of every tag.
-/

namespace CodeSurvey.Markup

/-! ## What is written -/

structure Space where
  chars : List Char := []
  blank : chars.all isSpace = true := by decide

/-- A character that can stand in a name. -/
def isNameChar (c : Char) : Bool := !Text.isBlank c && !"<>/='\"!?&".toList.contains c

structure Name where
  text : String
  ne_nil : text.toList ≠ [] := by decide
  plain : text.toList.all isNameChar = true := by decide

inductive Quote where
  | double
  | single
  deriving DecidableEq

def Quote.char : Quote → Char
  | double => '"'
  | single => '\''

theorem Quote.char_eq (q : Quote) : q.char = '"' ∨ q.char = '\'' := by cases q <;> simp [char]

/-- An attribute with the blanks before it and around its equals sign, and its value as written and
with its references replaced. -/
structure Attribute where
  gap : Space := ⟨[' '], by decide⟩
  apart : gap.chars ≠ [] := by decide
  name : Name
  before : Space := {}
  after : Space := {}
  quote : Quote := .double
  value : String
  plain : quote.char ∉ value.toList ∧ '<' ∉ value.toList := by decide
  decoded : String := value
  decodes : unescape value = .ok decoded := by rfl

namespace Attribute

variable (a : Attribute)

/-- What stands before the quotes. -/
def key : List Char :=
  a.gap.chars ++ (a.name.text.toList ++ (a.before.chars ++ '=' :: a.after.chars))

def quoted : List Char := a.quote.char :: (a.value.toList ++ [a.quote.char])

def chars : List Char := a.key ++ a.quoted

end Attribute

/-- What stands between the angle brackets of a tag that opens an element. -/
structure Opening where
  name : Name
  attributes : List Attribute := []
  tail : Space := {}
  distinct : (attributes.map (·.name.text)).Nodup := by decide

namespace Opening

variable (o : Opening)

def inside : List Char := o.attributes.flatMap Attribute.chars ++ o.tail.chars

def chars : List Char := o.name.text.toList ++ o.inside

def tag : Tag := ⟨o.name.text, o.inside⟩

end Opening

/-- A text between tags without the blanks around it. -/
def stripped (cs : List Char) : String :=
  String.ofList (Text.dropEndWhile isSpace (cs.dropWhile isSpace))

/-- A text between tags, as written and with its references replaced. -/
structure Passage where
  text : String := ""
  plain : '<' ∉ text.toList := by decide
  decoded : String := String.ofList (Text.dropEndWhile isSpace (text.toList.dropWhile isSpace))
  decodes : unescape (stripped text.toList) = .ok decoded := by rfl

namespace Passage

variable (p : Passage)

def isBlank : Bool := p.text.toList.all isSpace

def events : List Event := if p.isBlank then [] else [.text (stripped p.text.toList)]

end Passage

/-- What stands in markup beside its elements. -/
inductive Aside where
  | instruction (body : String) (unbroken : ¬ ['?', '>'] <:+: '?' :: body.toList)
  | documentType (body : String) (plain : '<' ∉ body.toList ∧ '>' ∉ body.toList)
      (named : body.toList.all isSpace = false)

def documentTypeWord : List Char := ['!', 'D', 'O', 'C', 'T', 'Y', 'P', 'E']

def Aside.chars : Aside → List Char
  | instruction body _ => '?' :: (body.toList ++ ['?'])
  | documentType body _ _ => documentTypeWord ++ body.toList

/-- Markup: elements and asides with texts between them. An element has a content of its own, or is
empty and written with one tag. -/
inductive Content where
  | done (text : Passage)
  | aside (text : Passage) (note : Aside) (rest : Content)
  | empty (text : Passage) (opening : Opening) (rest : Content)
  | element (text : Passage) (opening : Opening) (inner : Content) (tail : Space) (rest : Content)

def bracketed (cs : List Char) : List Char := '<' :: (cs ++ ['>'])

/-- What stands between the angle brackets of a tag that closes an element. -/
def closing (name : Name) (tail : Space) : List Char := '/' :: (name.text.toList ++ tail.chars)

namespace Content

def chars : Content → List Char
  | done text => text.text.toList
  | aside text note rest => text.text.toList ++ (bracketed note.chars ++ rest.chars)
  | empty text opening rest =>
    text.text.toList ++ (bracketed (opening.chars ++ ['/']) ++ rest.chars)
  | element text opening inner tail rest =>
    text.text.toList ++ (bracketed opening.chars ++
      (inner.chars ++ (bracketed (closing opening.name tail) ++ rest.chars)))

/-- What is met when the content is read. -/
def events : Content → List Event
  | done text => text.events
  | aside text _ rest => text.events ++ .skipped :: rest.events
  | empty text opening rest => text.events ++ .empty opening.tag :: rest.events
  | element text opening inner _ rest =>
    text.events ++ .opened opening.tag :: (inner.events ++ .closed :: rest.events)

end Content

/-! ## Characters -/

theorem isBlank_of_isSpace {c : Char} (h : isSpace c = true) : Text.isBlank c = true := by
  simp only [isSpace, Bool.or_eq_true, beq_iff_eq] at h
  rcases h with ((rfl | rfl) | rfl) | rfl <;> decide

theorem Space.isSpace_of_mem (s : Space) {c : Char} (h : c ∈ s.chars) : isSpace c = true :=
  List.all_eq_true.mp s.blank c h

namespace Name

variable (name : Name) {c : Char}

theorem not_isBlank_of_mem (h : c ∈ name.text.toList) : Text.isBlank c = false := by
  have hc := List.all_eq_true.mp name.plain c h
  rw [isNameChar, Bool.and_eq_true] at hc
  simpa using hc.1

theorem not_isSpace_of_mem (h : c ∈ name.text.toList) : isSpace c = false := by
  have hblank := name.not_isBlank_of_mem h
  cases hspace : isSpace c with
  | false => rfl
  | true => rw [isBlank_of_isSpace hspace] at hblank; cases hblank

theorem not_mem {c : Char} (hc : c ∈ "<>/='\"!?&".toList) : c ∉ name.text.toList := by
  intro h
  have hplain := List.all_eq_true.mp name.plain c h
  rw [isNameChar, Bool.and_eq_true, List.contains_eq_mem, decide_eq_true hc] at hplain
  exact absurd hplain.2 (by decide)

end Name

theorem localPart_suffix (name : String) : (localPart name).toList <:+ name.toList := by
  unfold localPart
  cases hrest : name.toList.dropWhile (· != ':') with
  | nil => exact List.suffix_refl _
  | cons c rest =>
    rw [String.toList_ofList]
    exact (List.suffix_cons c rest).trans (hrest ▸ List.dropWhile_suffix _)

/-- A text without references stays as it is. -/
theorem unescape_of_not_mem {text : String} (h : '&' ∉ text.toList) : unescape text = .ok text := by
  have hchars (total offset : Nat) (cs : List Char) (hcs : '&' ∉ cs) :
      unescapeFrom total none offset cs = .ok cs := by
    induction cs generalizing offset with
    | nil => rfl
    | cons c cs ih =>
      obtain ⟨hc, hcs⟩ := List.ne_and_not_mem_of_not_mem_cons hcs
      rw [unescapeFrom, if_neg hc.symm, ih _ hcs]
      rfl
  rw [unescape, hchars _ _ _ h]
  exact congrArg Except.ok String.ofList_toList

/-! ## Attributes -/

section Attributes

variable {p : Char → Bool} {xs ys : List Char}

theorem dropWhile_append_stop (hxs : ∀ x ∈ xs, p x = true) (hys : ∀ y ∈ ys.head?, p y = false) :
    (xs ++ ys).dropWhile p = ys := by
  rw [List.dropWhile_append_of_pos hxs]
  cases ys with
  | nil => rfl
  | cons y ys => exact List.dropWhile_cons_of_neg (by simp [hys y rfl])

theorem takeWhile_append_stop (hxs : ∀ x ∈ xs, p x = true) (hys : ∀ y ∈ ys.head?, p y = false) :
    (xs ++ ys).takeWhile p = xs := by
  rw [List.takeWhile_append_of_pos hxs]
  cases ys with
  | nil => simp
  | cons y ys => rw [List.takeWhile_cons_of_neg (by simp [hys y rfl]), List.append_nil]

/-- Where characters of a kind end, a text can be split in one way only. -/
theorem eq_of_append_stop {xs' ys' : List Char} (hxs : ∀ x ∈ xs, p x = true)
    (hxs' : ∀ x ∈ xs', p x = true) (hys : ∀ y ∈ ys.head?, p y = false)
    (hys' : ∀ y ∈ ys'.head?, p y = false) (h : xs ++ ys = xs' ++ ys') : xs = xs' := by
  rw [← takeWhile_append_stop hxs hys, h, takeWhile_append_stop hxs' hys']

/-- What comes next is one of the first characters, or else what stands behind them. -/
theorem head?_append_cons {x : Char} (hxs : ∀ c ∈ xs, p c = false) (hx : p x = false)
    (ys : List Char) : ∀ c ∈ (xs ++ x :: ys).head?, p c = false := by
  cases xs with
  | nil => simpa using hx
  | cons y xs => simpa using hxs y List.mem_cons_self

/-- Blanks and signs end a name. -/
theorem not_isNameChar_head? {blanks : List Char} (hblanks : ∀ c ∈ blanks, Text.isBlank c = true)
    {stop : Char} (hstop : isNameChar stop = false) (rest : List Char) :
    ∀ c ∈ (blanks ++ stop :: rest).head?, isNameChar c = false :=
  head?_append_cons (fun c hc => by simp [isNameChar, hblanks c hc]) hstop rest

theorem Name.exists_cons (name : Name) :
    ∃ first more, name.text.toList = first :: more := List.exists_cons_of_ne_nil name.ne_nil

/-- The name of an attribute is read up to the equals sign. -/
theorem readKey_name (name : Name) (before : Space) {first : Char} {more : List Char}
    (hname : name.text.toList = first :: more) (rest : List Char) :
    readKey first (more ++ (before.chars ++ '=' :: rest)) = ⟨name.text, true, rest⟩ := by
  have hmore : ∀ c ∈ more, (c != '=' && !isSpace c) = true := by
    intro c hc
    have hmem : c ∈ name.text.toList := hname ▸ List.mem_cons_of_mem first hc
    have hequals : c ≠ '=' := fun heq => name.not_mem (by decide) (heq ▸ hmem)
    simp [hequals, name.not_isSpace_of_mem hmem]
  have hend : ∀ c ∈ (before.chars ++ '=' :: rest).head?, (c != '=' && !isSpace c) = false :=
    head?_append_cons (fun c hc => by simp [before.isSpace_of_mem hc]) rfl rest
  have hequals : (before.chars ++ '=' :: rest).dropWhile isSpace = '=' :: rest :=
    dropWhile_append_stop (fun c hc => before.isSpace_of_mem hc) (by rintro c ⟨⟩; rfl)
  simp only [readKey, takeWhile_append_stop hmore hend, dropWhile_append_stop hmore hend, hequals]
  rw [← hname, String.ofList_toList]

/-- The value of an attribute is what its quotes enclose. -/
theorem readValue_quoted (a : Attribute) (rest : List Char) :
    readValue (a.after.chars ++ (a.quoted ++ rest)) = ⟨some a.value, rest⟩ := by
  have hquote := a.quote.char_eq
  have hstart : (a.after.chars ++ (a.quoted ++ rest)).dropWhile isSpace = a.quoted ++ rest := by
    refine dropWhile_append_stop (fun c hc => a.after.isSpace_of_mem hc) ?_
    intro c hc
    obtain rfl : a.quote.char = c := by simpa [Attribute.quoted] using hc
    rcases hquote with h | h <;> rw [h] <;> rfl
  have hvalue : ∀ c ∈ a.value.toList, (c != a.quote.char) = true := by
    intro c hc
    rw [bne_iff_ne]
    rintro rfl
    exact a.plain.1 hc
  have hend : ∀ c ∈ (a.quote.char :: rest).head?, (c != a.quote.char) = false := by
    rintro c ⟨⟩
    simp
  have hquoted : a.quoted ++ rest = a.quote.char :: (a.value.toList ++ a.quote.char :: rest) := by
    simp [Attribute.quoted]
  rw [readValue, hstart, hquoted]
  simp only [takeWhile_append_stop hvalue hend, dropWhile_append_stop hvalue hend,
    String.ofList_toList]
  simp [hquote]

theorem attributesFrom_cons {seen : List String} {cs rest after more : List Char} {first : Char}
    {key value : String} (hstart : cs.dropWhile isSpace = first :: rest)
    (hkey : readKey first rest = ⟨key, true, after⟩) (hnew : key ∉ seen)
    (hvalue : readValue after = ⟨some value, more⟩) :
    attributesFrom seen cs = (key, value) :: attributesFrom (key :: seen) more := by
  rw [attributesFrom]
  split
  · next hnone => rw [hnone] at hstart; cases hstart
  · next first' rest' heq =>
    obtain ⟨rfl, rfl⟩ := List.cons.inj (heq.symm.trans hstart)
    simp [hkey, hvalue, hnew]

/-- The attributes of a tag are read one after the other. -/
theorem attributesFrom_written (attributes : List Attribute) (tail : Space) {seen : List String}
    (hdistinct : (attributes.map (·.name.text)).Nodup)
    (hseen : ∀ a ∈ attributes, a.name.text ∉ seen) :
    attributesFrom seen (attributes.flatMap Attribute.chars ++ tail.chars) =
      attributes.map fun a => (a.name.text, a.value) := by
  induction attributes generalizing seen with
  | nil =>
    have hnone : tail.chars.dropWhile isSpace = [] := by
      rw [List.dropWhile_eq_nil_iff]
      exact fun c hc => tail.isSpace_of_mem hc
    rw [List.flatMap_nil, List.nil_append, attributesFrom]
    split
    · rfl
    · next heq => rw [hnone] at heq; cases heq
  | cons a attributes ih =>
    obtain ⟨first, more, hname⟩ := a.name.exists_cons
    rw [List.map_cons, List.nodup_cons] at hdistinct
    have hchars (rest : List Char) : a.chars ++ rest = a.gap.chars ++
        (first :: (more ++ (a.before.chars ++ '=' :: (a.after.chars ++ (a.quoted ++ rest))))) := by
      simp [Attribute.chars, Attribute.key, hname]
    have hstart (rest : List Char) : (a.chars ++ rest).dropWhile isSpace =
        first :: (more ++ (a.before.chars ++ '=' :: (a.after.chars ++ (a.quoted ++ rest)))) := by
      rw [hchars]
      refine dropWhile_append_stop (fun c hc => a.gap.isSpace_of_mem hc) ?_
      rintro c ⟨⟩
      exact a.name.not_isSpace_of_mem (hname ▸ List.mem_cons_self)
    rw [List.flatMap_cons, List.append_assoc,
      attributesFrom_cons (hstart _) (readKey_name a.name a.before hname _)
        (hseen a List.mem_cons_self) (readValue_quoted a _),
      ih hdistinct.2]
    · rfl
    · intro b hb hmem
      rcases List.mem_cons.mp hmem with heq | hmem
      · exact hdistinct.1 (heq ▸ List.mem_map_of_mem hb)
      · exact hseen b (List.mem_cons_of_mem a hb) hmem

/-- The attributes of a tag as it is read are those that are written. -/
theorem Opening.attributes_tag (o : Opening) :
    o.tag.attributes = o.attributes.map fun a => (a.name.text, a.value) :=
  attributesFrom_written o.attributes o.tail o.distinct (by simp)

/-- The attribute with a name: the first that has it, its references replaced. -/
theorem Opening.attribute?_tag (o : Opening) (name : String) :
    o.tag.attribute? name =
      (o.attributes.find? fun a => localPart a.name.text = name).map (·.decoded) := by
  have hdecoded (a : Attribute) : (unescape a.value).toOption = some a.decoded := by
    rw [a.decodes]
    rfl
  rw [Tag.attribute?, o.attributes_tag, List.find?_map, Option.bind_map, Option.map_eq_bind]
  simp only [Function.comp_def, hdecoded]

end Attributes

/-! ## Where pieces end -/

section Pieces

open Piece (openQuote)

variable {xs ys : List Char}

/-- A piece is cut off at the first closing bracket that ends it. -/
theorem cut?_append {piece : Piece} {content read : List Char} (rest : List Char)
    (hinside : ∀ xs ys, content = xs ++ '>' :: ys → piece.endsAfter (xs.reverse ++ read) = false)
    (hend : piece.endsAfter (content.reverse ++ read) = true) :
    piece.cut? read (content ++ '>' :: rest) = some (read.reverse ++ content, rest) := by
  induction content generalizing read with
  | nil =>
    have hend' : piece.endsAfter read = true := hend
    simp [Piece.cut?, hend']
  | cons c content ih =>
    have hnext : piece.cut? (c :: read) (content ++ '>' :: rest) =
        some ((c :: read).reverse ++ content, rest) := by
      apply ih
      · intro xs ys hsplit
        simpa using hinside (c :: xs) ys (by rw [hsplit, List.cons_append])
      · simpa using hend
    have hopen : (c = '>' && piece.endsAfter read) = false := by
      by_cases hc : c = '>'
      · have hfirst := hinside [] content (by rw [hc, List.nil_append])
        simpa [hc] using hfirst
      · simp [hc]
    rw [List.cons_append, Piece.cut?, hopen, if_neg Bool.false_ne_true, hnext]
    simp

theorem openQuote_append (h : openQuote xs = none) (ys : List Char) :
    openQuote (xs ++ ys) = openQuote ys := by
  unfold openQuote at h ⊢
  rw [List.foldl_append, h]

/-- Closing brackets stand in quotes only, and no quote is left open. -/
structure Shut (cs : List Char) : Prop where
  inside : ∀ xs ys, cs = xs ++ '>' :: ys → openQuote xs ≠ none
  outside : openQuote cs = none

namespace Shut

theorem append (hxs : Shut xs) (hys : Shut ys) : Shut (xs ++ ys) where
  inside as bs h := by
    rcases List.append_eq_append_iff.mp h with ⟨cs, rfl, hcs⟩ | ⟨cs, hcs, hbs⟩
    · rw [openQuote_append hxs.outside]
      exact hys.inside cs bs hcs
    · cases cs with
      | nil =>
        rw [List.append_nil] at hcs
        rw [← hcs, ← List.append_nil xs, openQuote_append hxs.outside]
        exact hys.inside [] bs hbs.symm
      | cons c cs =>
        obtain ⟨rfl, -⟩ := List.cons.inj hbs
        exact hxs.inside as cs hcs
  outside := (openQuote_append hxs.outside ys).trans hys.outside

theorem of_plain (h : ∀ c ∈ ['"', '\'', '>'], c ∉ xs) : Shut xs where
  inside as bs hsplit := absurd (hsplit ▸ by simp) (h '>' (by decide))
  outside := by
    induction xs with
    | nil => rfl
    | cons x xs ih =>
      have hx : x ≠ '"' ∧ x ≠ '\'' := by
        constructor
        · rintro rfl
          exact h '"' (by decide) List.mem_cons_self
        · rintro rfl
          exact h '\'' (by decide) List.mem_cons_self
      have hrest := ih fun c hc hmem => h c hc (List.mem_cons_of_mem x hmem)
      simpa [openQuote, hx.1, hx.2] using hrest

theorem flatMap {α : Type} {items : List α} {f : α → List Char} (h : ∀ x ∈ items, Shut (f x)) :
    Shut (items.flatMap f) := by
  induction items with
  | nil => exact of_plain (by simp)
  | cons x items ih =>
    obtain ⟨hx, hitems⟩ := List.forall_mem_cons.mp h
    exact hx.append (ih hitems)

end Shut

/-- After a quote it stays open up to the next one of its kind. -/
theorem openQuote_cons (q : Quote) (h : q.char ∉ xs) : openQuote (q.char :: xs) = some q.char := by
  have hopen : openQuote [q.char] = some q.char := by simp [openQuote, q.char_eq]
  rw [← List.singleton_append]
  unfold openQuote at hopen ⊢
  rw [List.foldl_append, hopen]
  induction xs with
  | nil => rfl
  | cons x xs ih =>
    obtain ⟨hx, hxs⟩ := List.ne_and_not_mem_of_not_mem_cons h
    rw [List.foldl_cons]
    dsimp only
    rw [if_neg (Ne.symm hx)]
    exact ih hxs

theorem Attribute.shut_quoted (a : Attribute) : Shut a.quoted where
  inside xs ys hsplit := by
    have hbracket : a.quote.char ≠ '>' := by cases a.quote <;> decide
    cases xs with
    | nil => exact absurd (List.cons.inj hsplit).1 hbracket
    | cons x xs =>
      obtain ⟨rfl, hrest⟩ := List.cons.inj hsplit
      have hbegin : xs <+: a.value.toList := by
        rcases List.append_eq_append_iff.mp hrest with ⟨cs, hcs, hquote⟩ | ⟨cs, hcs, -⟩
        · cases cs with
          | nil => exact (List.append_nil _ ▸ hcs) ▸ List.prefix_refl _
          | cons c cs =>
            have hlength := congrArg List.length hquote
            simp at hlength
        · exact ⟨cs, hcs.symm⟩
      rw [openQuote_cons a.quote fun hmem => a.plain.1 (hbegin.subset hmem)]
      exact Option.some_ne_none _
  outside := by
    unfold Attribute.quoted
    rw [← List.cons_append]
    have hopen := openQuote_cons a.quote a.plain.1
    unfold openQuote at hopen ⊢
    rw [List.foldl_append, hopen]
    simp

theorem Space.shut (s : Space) : Shut s.chars := by
  refine Shut.of_plain fun c hc hmem => ?_
  have hspace := s.isSpace_of_mem hmem
  simp only [List.mem_cons, List.not_mem_nil, or_false] at hc
  rcases hc with rfl | rfl | rfl <;> exact absurd hspace (by decide)

theorem Name.shut (name : Name) : Shut name.text.toList :=
  Shut.of_plain fun _ hc => name.not_mem ((by decide : ['"', '\'', '>'] ⊆ "<>/='\"!?&".toList) hc)

theorem Attribute.shut (a : Attribute) : Shut a.chars := by
  have hequals : Shut ['='] := Shut.of_plain (by simp)
  exact (a.gap.shut.append (a.name.shut.append (a.before.shut.append
    (hequals.append a.after.shut)))).append a.shut_quoted

namespace Opening

variable (o : Opening)

theorem shut_inside : Shut o.inside := (Shut.flatMap fun a _ => a.shut).append o.tail.shut

theorem shut : Shut o.chars := o.name.shut.append o.shut_inside

theorem isSpace_head?_inside : ∀ c ∈ o.inside.head?, isSpace c = true := by
  intro c hc
  unfold inside at hc
  cases hattributes : o.attributes with
  | nil =>
    rw [hattributes, List.flatMap_nil, List.nil_append] at hc
    exact o.tail.isSpace_of_mem (List.mem_of_mem_head? hc)
  | cons a more =>
    rw [hattributes, List.flatMap_cons, List.append_assoc, Attribute.chars, Attribute.key,
      List.append_assoc, List.append_assoc, List.head?_append_of_ne_nil _ a.apart] at hc
    exact a.gap.isSpace_of_mem (List.mem_of_mem_head? hc)

theorem ofContent_chars : Tag.ofContent o.chars = o.tag := by
  have hname : ∀ c ∈ o.name.text.toList, (!isSpace c) = true := by
    intro c hc
    rw [o.name.not_isSpace_of_mem hc]
    rfl
  have hinside : ∀ c ∈ o.inside.head?, (!isSpace c) = false := by
    intro c hc
    rw [o.isSpace_head?_inside c hc]
    rfl
  rw [Tag.ofContent, chars, takeWhile_append_stop hname hinside, dropWhile_append_stop hname hinside,
    String.ofList_toList]
  rfl

/-- What stands after the name does not end in a slash. -/
theorem getLast?_inside_ne : o.inside.getLast? ≠ some '/' := by
  intro hlast
  rw [inside, List.getLast?_append] at hlast
  cases htail : o.tail.chars.getLast? with
  | some c =>
    rw [htail, Option.some_or, Option.some_inj] at hlast
    have hspace := o.tail.isSpace_of_mem (List.mem_of_getLast? htail)
    rw [hlast] at hspace
    exact absurd hspace (by decide)
  | none =>
    rw [htail, Option.none_or] at hlast
    rcases List.eq_nil_or_concat o.attributes with hnil | ⟨before, a, hconcat⟩
    · rw [hnil] at hlast
      cases hlast
    · have hquote : a.quote.char ≠ '/' := by cases a.quote <;> decide
      apply hquote
      have hchars : a.chars = (a.key ++ a.quote.char :: a.value.toList) ++ [a.quote.char] := by
        simp [Attribute.chars, Attribute.quoted]
      rw [hconcat, List.concat_eq_append, List.flatMap_append, List.flatMap_singleton, hchars,
        ← List.append_assoc, List.getLast?_concat] at hlast
      exact Option.some_inj.mp hlast

theorem getLast?_chars_ne : o.chars.getLast? ≠ some '/' := by
  intro hlast
  rw [chars, List.getLast?_append] at hlast
  rcases Option.or_eq_some_iff.mp hlast with hinside | ⟨-, hname⟩
  · exact o.getLast?_inside_ne hinside
  · exact o.name.not_mem (by decide) (List.mem_of_getLast? hname)

end Opening

/-! ## What pieces make -/

theorem ofChars_name (name : Name) (rest : List Char) :
    Piece.ofChars (name.text.toList ++ rest) = .ok .opening := by
  obtain ⟨first, more, hname⟩ := name.exists_cons
  have hfirst {c : Char} (hc : c ∈ "<>/='\"!?&".toList) : first ≠ c := by
    rintro rfl
    exact name.not_mem hc (hname ▸ List.mem_cons_self)
  have hmark : first ≠ '!' := hfirst (by decide)
  have hquestion : first ≠ '?' := hfirst (by decide)
  have hslash : first ≠ '/' := hfirst (by decide)
  rw [hname, List.cons_append, Piece.ofChars]
  all_goals simp [hmark, hquestion, hslash]

/-- A tag is cut off as a whole. -/
theorem cut?_shut {piece : Piece} (hpiece : piece = .opening ∨ piece = .closing) {cs : List Char}
    (h : Shut cs) (rest : List Char) : piece.cut? [] (cs ++ '>' :: rest) = some (cs, rest) := by
  have hends (read : List Char) : piece.endsAfter read = (openQuote read.reverse).isNone := by
    rcases hpiece with rfl | rfl <;> rfl
  apply cut?_append
  · intro xs ys hsplit
    simpa [hends, ← Option.ne_none_iff_isSome] using h.inside xs ys hsplit
  · simpa [hends] using h.outside

theorem event_opening (o : Opening) (opened : List String) :
    Piece.event .opening opened o.chars = .ok (.opened o.tag, o.name.text :: opened) := by
  rw [Piece.event, if_neg o.getLast?_chars_ne, o.ofContent_chars]
  rfl

theorem event_empty (o : Opening) (opened : List String) :
    Piece.event .opening opened (o.chars ++ ['/']) = .ok (.empty o.tag, opened) := by
  rw [Piece.event, if_pos List.getLast?_concat, List.dropLast_concat, o.ofContent_chars]

theorem event_closing (name : Name) (tail : Space) (opened : List String) :
    Piece.event .closing (name.text :: opened) (closing name tail) = .ok (.closed, opened) := by
  have hname : (name.text.toList ++ tail.chars).all isSpace = false := by
    obtain ⟨first, more, hname⟩ := name.exists_cons
    rw [hname, List.cons_append, List.all_cons,
      name.not_isSpace_of_mem (hname ▸ List.mem_cons_self), Bool.false_and]
  have htrimmed : Text.dropEndWhile isSpace (name.text.toList ++ tail.chars) = name.text.toList := by
    rw [Text.dropEndWhile, List.reverse_append, dropWhile_append_stop, List.reverse_reverse]
    · exact fun c hc => tail.isSpace_of_mem (List.mem_reverse.mp hc)
    · exact fun c hc => name.not_isSpace_of_mem
        (List.mem_reverse.mp (List.mem_of_mem_head? hc))
  simp [Piece.event, closing, hname, htrimmed]

theorem shut_closing (name : Name) (tail : Space) : Shut (closing name tail) := by
  have hslash : Shut ['/'] := Shut.of_plain (by simp)
  exact hslash.append (name.shut.append tail.shut)

namespace Aside

def piece : Aside → Piece
  | instruction _ _ => .instruction
  | documentType _ _ _ => .documentType

variable (note : Aside)

theorem ofChars_chars (rest : List Char) :
    Piece.ofChars (note.chars ++ rest) = .ok note.piece := by
  cases note <;> rfl

theorem event_chars (opened : List String) :
    note.piece.event opened note.chars = .ok (.skipped, opened) := by
  cases note with
  | instruction body unbroken => simp [piece, chars, Piece.event]
  | documentType body plain named =>
    have hword : (documentTypeWord ++ body.toList).take 8 = documentTypeWord :=
      List.take_left' rfl
    have hname : (documentTypeWord ++ body.toList).drop 8 = body.toList :=
      List.drop_left' rfl
    simp only [piece, chars, Piece.event, hword, hname, named]
    rfl

/-- An aside is cut off as a whole. -/
theorem cut?_chars (rest : List Char) :
    note.piece.cut? [] (note.chars ++ '>' :: rest) = some (note.chars, rest) := by
  cases note with
  | instruction body unbroken =>
    have hends (xs : List Char) : Piece.endsAfter (xs.reverse ++ []) .instruction = true ↔
        ['?'] <:+ xs := by
      rw [List.append_nil, Piece.endsAfter, List.isPrefixOf_iff_prefix, ← List.reverse_prefix]
      rfl
    apply cut?_append
    · intro xs ys hsplit
      rw [piece, Bool.eq_false_iff, ne_eq, hends]
      rintro ⟨before, rfl⟩
      apply unbroken
      rw [chars, ← List.cons_append] at hsplit
      -- the last character is the question mark at the end
      rcases List.eq_nil_or_concat ys with rfl | ⟨after, c, rfl⟩
      · exact absurd (List.append_inj_right' hsplit rfl) (by decide)
      · rw [List.concat_eq_append, ← List.cons_append, ← List.append_assoc] at hsplit
        have hbody := List.append_inj_left' hsplit rfl
        exact ⟨before, after, by simpa using hbody.symm⟩
    · rw [piece, hends, chars, ← List.cons_append]
      exact List.suffix_append _ _
  | documentType body plain named =>
    have hbracket : '>' ∉ documentTypeWord ++ body.toList := by
      simp [documentTypeWord, plain.2]
    apply cut?_append
    · intro xs ys hsplit
      rw [chars] at hsplit
      exact absurd (hsplit ▸ by simp) hbracket
    · have hopen : '<' ∉ documentTypeWord ++ body.toList := by
        simp [documentTypeWord, plain.1]
      simp only [piece, chars, Piece.endsAfter, List.append_nil, List.count_reverse,
        List.count_eq_zero_of_not_mem hbracket, List.count_eq_zero_of_not_mem hopen]
      rfl

end Aside

end Pieces

/-! ## Reading what is written -/

section Reading

variable {opened opened' : List String} {cs rest content : List Char} {events : List Event}

theorem readFrom_blank (position : Nat) (h : cs.dropWhile isSpace = []) :
    readFrom opened position cs = {} := by
  rw [readFrom]
  split
  · rfl
  · next heq => rw [h] at heq; cases heq
  · next heq => rw [h] at heq; cases heq

theorem exists_readFrom_piece (position : Nat) {piece : Piece} {event : Event}
    (hstart : cs.dropWhile isSpace = '<' :: (content ++ '>' :: rest))
    (hpiece : Piece.ofChars (content ++ '>' :: rest) = .ok piece)
    (hcut : piece.cut? [] (content ++ '>' :: rest) = some (content, rest))
    (hevent : piece.event opened content = .ok (event, opened')) :
    ∃ next, readFrom opened position cs =
      (readFrom opened' next rest).after ⟨position, event⟩ := by
  rw [readFrom]
  split
  · next heq => rw [hstart] at heq; cases heq
  · next rest' heq =>
    obtain ⟨-, rfl⟩ := List.cons.inj (hstart.symm.trans heq)
    simp only [hpiece]
    split
    · next hnone => rw [hcut] at hnone; cases hnone
    · next heq =>
      cases hcut.symm.trans heq
      simp only [hevent]
      exact ⟨_, rfl⟩
  · next first rest' hne heq =>
    obtain ⟨rfl, -⟩ := List.cons.inj (hstart.symm.trans heq)
    exact absurd rfl hne

theorem exists_readFrom_text (opened : List String) (position : Nat) {first : Char}
    (hstart : cs.dropWhile isSpace = first :: rest) (hfirst : first ≠ '<') :
    ∃ next, readFrom opened position cs =
      (readFrom opened next (rest.dropWhile (· != '<'))).after ⟨position, .text (String.ofList
        (Text.dropEndWhile isSpace (first :: rest.takeWhile (· != '<'))))⟩ := by
  rw [readFrom]
  split
  · next heq => rw [hstart] at heq; cases heq
  · next rest' heq => exact absurd (List.cons.inj (hstart.symm.trans heq)).1 hfirst
  · next first' rest' hne heq =>
    obtain ⟨rfl, rfl⟩ := List.cons.inj (hstart.symm.trans heq)
    exact ⟨_, rfl⟩

/-- Reading on meets events and no fault, whatever blanks stand before and wherever it begins. -/
def Reads (opened : List String) (cs : List Char) (events : List Event) : Prop :=
  ∀ (s : Space) (position : Nat),
    (readFrom opened position (s.chars ++ cs)).events.map (·.event) = events ∧
      (readFrom opened position (s.chars ++ cs)).fault = none

theorem Reads.nil : Reads opened [] [] := by
  intro s position
  have hblank : (s.chars ++ []).dropWhile isSpace = [] := by
    rw [List.append_nil, List.dropWhile_eq_nil_iff]
    exact fun c hc => s.isSpace_of_mem hc
  rw [readFrom_blank position hblank]
  exact ⟨rfl, rfl⟩

theorem Reads.piece (h : Reads opened' rest events) {piece : Piece} {event : Event}
    (hpiece : Piece.ofChars (content ++ '>' :: rest) = .ok piece)
    (hcut : piece.cut? [] (content ++ '>' :: rest) = some (content, rest))
    (hevent : piece.event opened content = .ok (event, opened')) :
    Reads opened (bracketed content ++ rest) (event :: events) := by
  intro s position
  have hstart : (s.chars ++ (bracketed content ++ rest)).dropWhile isSpace =
      '<' :: (content ++ '>' :: rest) := by
    rw [bracketed, List.cons_append, List.append_assoc, List.singleton_append]
    exact dropWhile_append_stop (fun c hc => s.isSpace_of_mem hc) (by rintro c ⟨⟩; rfl)
  obtain ⟨next, hread⟩ := exists_readFrom_piece position hstart hpiece hcut hevent
  obtain ⟨hevents, hfault⟩ := h {} next
  rw [hread]
  constructor
  · rw [Reading.after, List.map_cons]
    exact congrArg _ hevents
  · exact hfault

/-- A text makes its event, unless it is blank. -/
theorem Reads.passage (h : Reads opened rest events) (p : Passage)
    (hrest : ∀ c ∈ rest.head?, c = '<') :
    Reads opened (p.text.toList ++ rest) (p.events ++ events) := by
  intro s position
  cases hblank : p.isBlank with
  | true =>
    have hspace : (s.chars ++ p.text.toList).all isSpace = true := by
      rw [List.all_append, s.blank]
      exact hblank
    have hread := h ⟨s.chars ++ p.text.toList, hspace⟩ position
    rw [List.append_assoc] at hread
    simpa [Passage.events, hblank] using hread
  | false =>
    have hne : p.text.toList.dropWhile isSpace ≠ [] := by
      rw [ne_eq, List.dropWhile_eq_nil_iff, ← List.all_eq_true]
      exact Bool.eq_false_iff.mp hblank
    obtain ⟨first, more, hmore⟩ := List.exists_cons_of_ne_nil hne
    have hplain {c : Char} (hc : c ∈ first :: more) : c ≠ '<' := by
      rintro rfl
      exact p.plain ((List.dropWhile_sublist _).subset (hmore ▸ hc))
    have hstart : (s.chars ++ (p.text.toList ++ rest)).dropWhile isSpace =
        first :: (more ++ rest) := by
      rw [List.dropWhile_append_of_pos fun c hc => s.isSpace_of_mem hc, List.dropWhile_append,
        hmore]
      rfl
    have htext : ∀ c ∈ more, (c != '<') = true := fun c hc =>
      bne_iff_ne.mpr (hplain (List.mem_cons_of_mem first hc))
    have hend : ∀ c ∈ rest.head?, (c != '<') = false := by
      intro c hc
      rw [hrest c hc]
      rfl
    obtain ⟨next, hread⟩ := exists_readFrom_text opened position hstart
      (hplain List.mem_cons_self)
    obtain ⟨hevents, hfault⟩ := h {} next
    rw [hread, takeWhile_append_stop htext hend, dropWhile_append_stop htext hend]
    constructor
    · rw [Reading.after, List.map_cons, Passage.events, hblank, if_neg Bool.false_ne_true, stripped,
        hmore]
      exact congrArg _ hevents
    · exact hfault

/-- Reading a content meets its events, and then those of what follows. -/
theorem Reads.written (content : Content) (h : Reads opened rest events)
    (hrest : ∀ c ∈ rest.head?, c = '<') :
    Reads opened (content.chars ++ rest) (content.events ++ events) := by
  have hbracket (cs more : List Char) : ∀ c ∈ (bracketed cs ++ more).head?, c = '<' := by
    rintro c ⟨⟩
    rfl
  induction content generalizing opened rest events with
  | done text => exact h.passage text hrest
  | aside text note more ih =>
    have hpiece := (ih h hrest).piece (note.ofChars_chars _) (note.cut?_chars _)
      (note.event_chars opened)
    simpa [Content.chars, Content.events] using hpiece.passage text (hbracket _ _)
  | empty text opening more ih =>
    have hslash : Shut ['/'] := Shut.of_plain (by simp)
    have hname := ofChars_name opening.name
      (opening.inside ++ ['/'] ++ '>' :: (more.chars ++ rest))
    have hpiece := (ih h hrest).piece
      (by simpa [Opening.chars] using hname)
      (cut?_shut (.inl rfl) (opening.shut.append hslash) _) (event_empty opening opened)
    simpa [Content.chars, Content.events] using hpiece.passage text (hbracket _ _)
  | element text opening inner tail more ihInner ihMore =>
    have hclosing := (ihMore h hrest).piece (by rfl)
      (cut?_shut (.inr rfl) (shut_closing opening.name tail) _)
      (event_closing opening.name tail opened)
    have hinner := ihInner hclosing (hbracket _ _)
    have hname := ofChars_name opening.name (opening.inside ++ '>' :: (inner.chars ++
      (bracketed (closing opening.name tail) ++ (more.chars ++ rest))))
    have hpiece := hinner.piece
      (by simpa [Opening.chars] using hname) (cut?_shut (.inl rfl) opening.shut _)
      (event_opening opening opened)
    simpa [Content.chars, Content.events] using hpiece.passage text (hbracket _ _)

end Reading

/-- A text of markup, with or without a byte order mark at its start. -/
structure Document where
  marked : Bool := false
  content : Content
  unmarked : content.chars.head? ≠ some '\ufeff'

namespace Document

variable (d : Document)

def text : String := String.ofList ((if d.marked then ['\ufeff'] else []) ++ d.content.chars)

/-- Reading a document meets the events of its content and no fault. -/
theorem read_text :
    (read d.text).events.map (·.event) = d.content.events ∧ (read d.text).fault = none := by
  have hchars : Text.withoutMark d.text.toList = d.content.chars := by
    rw [text, String.toList_ofList]
    cases d.marked with
    | true => rfl
    | false =>
      have hunmarked := d.unmarked
      cases hcontent : d.content.chars with
      | nil => rfl
      | cons c cs =>
        rw [hcontent] at hunmarked
        simpa [Text.withoutMark] using hunmarked
  have hreads := (Reads.nil : Reads [] [] []).written d.content (by simp) {} 0
  simpa [read, hchars] using hreads

end Document

end CodeSurvey.Markup
