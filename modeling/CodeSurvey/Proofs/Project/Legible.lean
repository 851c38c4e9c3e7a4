import CodeSurvey.Proofs.Project.References
import CodeSurvey.Proofs.Regex.Separate

/-!
# Package references in the text of a project

Package references can be found in the text of a project without reading it as markup, as long as
nothing else in the text looks like one and nothing in them looks like their end or their name. Then
the matches in the text are the package references in order, each with the text of its attributes and
of its content, and the name that is found in the attributes is what the reference includes.
-/

namespace CodeSurvey.Project

open Markup (Name Space Attribute Opening Passage Aside Content localPart bracketed closing isSpace
  isBlank_of_isSpace eq_of_append_stop not_isNameChar_head?)
open Detect.Project (packageReference packageName)
open Regex

/-! ## Legible projects -/

/-- A name that is not taken for that of a package reference with something after it. -/
def ClearName (name : Name) : Prop :=
  ':' ∉ name.text.toList ∧ ("PackageReference".toList <+: name.text.toList →
    (name.text.toList.drop 16).head?.all Text.isWord = true)

/-- The words for what is included. -/
def words : List String := ["Include", "Update"]

/-- A name that ends in a word for what is included. -/
def EndsInNaming (name : Name) : Prop := ∃ w ∈ words, w.toList <:+ name.text.toList

/-- A value that is not taken for the end of a tag or for part of a name. -/
def ClearValue (value : String) : Prop :=
  '>' ∉ value.toList ∧ '"' ∉ value.toList ∧ Text.endsWith "=" (Text.trimEnd value) = false

/-- An attribute names the package of a tag: no other attribute does, and what it names is in double
quotes, as it is meant and not empty. -/
def Names (o : Opening) (a : Attribute) : Prop :=
  a.name.text ∈ words ∧ a.quote = .double ∧ a.value ≠ "" ∧ '&' ∉ a.value.toList ∧
    ∀ b ∈ o.attributes, EndsInNaming b.name → b.name.text = a.name.text

/-- A package can be read off the text of a tag. -/
def Citing (o : Opening) : Prop :=
  (∃ a ∈ o.attributes, Names o a) ∧ ∀ a ∈ o.attributes, ClearValue a.value

/-- Package references can be told from all else in a text. -/
def Legible : Content → Prop
  | .done _ => True
  | .aside _ note rest => '<' ∉ note.chars ∧ Legible rest
  | .empty _ opening rest =>
    ClearName opening.name ∧ (kindOf? opening = some .package → Citing opening) ∧ Legible rest
  | .element _ opening inner tail rest =>
    ClearName opening.name ∧
      (kindOf? opening = some .package → Citing opening ∧ tail.chars = []) ∧
      Legible inner ∧ Legible rest

instance (name : Name) : Decidable (ClearName name) := inferInstanceAs (Decidable (_ ∧ (_ → _)))

instance (name : Name) : Decidable (EndsInNaming name) :=
  inferInstanceAs (Decidable (∃ w ∈ _, _))

instance (value : String) : Decidable (ClearValue value) := inferInstanceAs (Decidable (_ ∧ _ ∧ _))

instance (o : Opening) (a : Attribute) : Decidable (Names o a) :=
  inferInstanceAs (Decidable (_ ∧ _ ∧ _ ∧ _ ∧ ∀ b ∈ o.attributes, _ → _))

instance (o : Opening) : Decidable (Citing o) :=
  inferInstanceAs (Decidable ((∃ a ∈ o.attributes, _) ∧ ∀ a ∈ o.attributes, _))

instance decidableLegible : (c : Content) → Decidable (Legible c)
  | .done _ => .isTrue trivial
  | .aside _ _ rest =>
    have := decidableLegible rest
    inferInstanceAs (Decidable (_ ∧ _))
  | .empty _ _ rest =>
    have := decidableLegible rest
    inferInstanceAs (Decidable (_ ∧ (_ → _) ∧ _))
  | .element _ _ inner _ rest =>
    have := decidableLegible inner
    have := decidableLegible rest
    inferInstanceAs (Decidable (_ ∧ (_ → _ ∧ _) ∧ _ ∧ _))

theorem localPart_eq {name : Name} (h : ClearName name) : localPart name.text = name.text := by
  have hnone : name.text.toList.dropWhile (· != ':') = [] := by
    rw [List.dropWhile_eq_nil_iff]
    intro c hc
    rw [bne_iff_ne]
    rintro rfl
    exact h.1 hc
  rw [localPart, hnone]

def packages (c : Content) : List Entry := (entriesOf c).filter (·.kind = .package)

/-- Within a reference there are no others. -/
theorem entriesOf_eq_nil {c : Content} (h : Flat true c) : entriesOf c = [] := by
  induction c with
  | done text => rfl
  | aside text note rest ih => exact ih h
  | empty text opening rest ih => rw [entriesOf, h.1 rfl, ih h.2]; rfl
  | element text opening inner tail rest ihInner ihRest =>
    obtain ⟨hkind, hinner, hrest⟩ := h
    rw [entriesOf, hkind rfl]
    dsimp only
    rw [ihInner hinner, ihRest hrest]
    rfl

theorem Flat.outside {c : Content} (h : Flat true c) : Flat false c := by
  induction c with
  | done text => trivial
  | aside text note rest ih => exact ih h
  | empty text opening rest ih => exact ⟨nofun, ih h.2⟩
  | element text opening inner tail rest ihInner ihRest =>
    obtain ⟨hkind, hinner, hrest⟩ := h
    refine ⟨nofun, ?_, ihRest hrest⟩
    rw [hkind rfl]
    exact ihInner hinner

theorem Flat.inner {text : Passage} {o : Opening} {inner rest : Content} {tail : Space}
    (h : Flat false (.element text o inner tail rest)) : Flat false inner := by
  obtain ⟨-, hinner, -⟩ := h
  cases hkind : kindOf? o with
  | none => simpa [hkind] using hinner
  | some kind => exact Flat.outside (by simpa [hkind] using hinner)

/-! ## Where no match begins -/

section Failing

variable {bound : Nat} {r : Regex} {xs ys : List Char}

/-- The text that package references begin with. -/
def head : List Char := "<PackageReference".toList

/-- The text that package references end with, unless they are empty. -/
def foot : List Char := "</PackageReference>".toList

theorem head_eq : head = '<' :: "PackageReference".toList := by decide

theorem foot_eq : foot = '<' :: '/' :: ("PackageReference".toList ++ ['>']) := by decide

/-- An expression that matches only where an opening bracket stands. -/
def Bracketing (bound : Nat) (r : Regex) : Prop :=
  ∀ cs : List Char, cs.head? ≠ some '<' → FailsAt bound r cs

theorem Bracketing.plain (h : Bracketing bound r) (hxs : '<' ∉ xs) (ys : List Char) :
    FailsAlong bound r xs ys :=
  FailsAlong.of_head fun x hx cs => h (x :: cs) fun hhead => hxs (Option.some_inj.mp hhead ▸ hx)

theorem Bracketing.piece (h : Bracketing bound r) (hxs : '<' ∉ xs)
    (hfails : FailsAt bound r (bracketed xs ++ ys)) : FailsAlong bound r (bracketed xs) ys := by
  refine FailsAlong.cons ?_ (h.plain ?_ ys)
  · exact hfails
  · simpa using hxs

theorem bracketing_lit {w : String} (hw : w.toList.head? = some '<') (r : Regex) :
    Bracketing bound (seq (lit w) r) := by
  intro cs hcs before index groups
  refine Fails.seq (Fails.lit ?_) r
  rintro ⟨rest, hrest⟩
  obtain ⟨tail, htail⟩ := List.head?_eq_some_iff.mp hw
  apply hcs
  rw [show cs = w.toList ++ rest from hrest.symm, htail]
  rfl

theorem bracketing_packageReference : Bracketing bound packageReference :=
  bracketing_lit rfl _

/-- A package reference begins with its name, and no word character after it. -/
theorem failsAt_packageReference {cs : List Char}
    (h : ∀ rest, cs = head ++ rest → rest.head?.any Text.isWord = true) :
    FailsAt bound packageReference cs := by
  intro before index groups
  by_cases hhead : head <+: cs
  · obtain ⟨rest, rfl⟩ := hhead
    let s : Cursor := ⟨before, head ++ rest, index, groups⟩
    have hlit : Only bound (lit "<PackageReference") s (s.past head) := Only.lit rfl
    refine Only.fails_seq hlit (Fails.seq (Fails.look ?_) _)
    have hrest : (s.past head).rest = rest := Cursor.rest_past rfl
    have hbefore : (s.past head).before = some 'e' :=
      Cursor.before_past_concat s "<PackageReferenc".toList 'e'
    rw [Anchor.holds, hbefore, hrest, h rest rfl]
    rfl
  · refine Fails.seq (Fails.lit ?_) _
    exact hhead

/-- The tag of another element is no package reference. -/
theorem failsAt_opening {name : Name} (hclear : ClearName name)
    (hname : name.text ≠ "PackageReference") {rest : List Char}
    (hrest : ∀ c ∈ rest.head?, Text.isWord c = false) :
    FailsAt bound packageReference ('<' :: (name.text.toList ++ rest)) := by
  apply failsAt_packageReference
  intro more hmore
  have hsplit : name.text.toList ++ rest = "PackageReference".toList ++ more :=
    (List.cons.inj hmore).2
  rcases List.append_eq_append_iff.mp hsplit with ⟨as, has, hrest'⟩ | ⟨bs, hbs, rfl⟩
  · cases as with
    | nil => exact absurd (String.toList_inj.mp (has.trans (List.append_nil _)).symm) hname
    | cons a as =>
      have ha : a ∈ "PackageReference".toList := has ▸ by simp
      have hall : "PackageReference".toList.all Text.isWord = true := by decide
      have hword := List.all_eq_true.mp hall a ha
      rw [hrest a (by rw [hrest']; rfl)] at hword
      cases hword
  · cases bs with
    | nil => exact absurd (String.toList_inj.mp (hbs.trans (List.append_nil _))) hname
    | cons b bs =>
      have hword := hclear.2 ⟨b :: bs, hbs.symm⟩
      have hdrop : ("PackageReference".toList ++ b :: bs).drop 16 = b :: bs :=
        List.drop_left' (by decide)
      rw [hbs, hdrop] at hword
      exact hword

theorem failsAt_closing (name : Name) (tail : Space) (rest : List Char) :
    FailsAt bound packageReference (bracketed (closing name tail) ++ rest) := by
  apply failsAt_packageReference
  intro more hmore
  exact absurd (List.cons.inj (List.cons.inj hmore).2).1 (by decide)

theorem failsAt_aside (note : Aside) (rest : List Char) :
    FailsAt bound packageReference (bracketed note.chars ++ rest) := by
  apply failsAt_packageReference
  intro more hmore
  cases note <;> exact absurd (List.cons.inj (List.cons.inj hmore).2).1 (by decide)

theorem bracketing_foot : Bracketing bound (seq (lit "</PackageReference>") empty) :=
  bracketing_lit rfl _

theorem failsAt_foot {cs : List Char} (h : ¬ foot <+: cs) :
    FailsAt bound (seq (lit "</PackageReference>") empty) cs := by
  intro before index groups
  refine Fails.seq (Fails.lit ?_) _
  exact h

theorem not_isWord_of_isSpace {c : Char} (h : isSpace c = true) : Text.isWord c = false := by
  simp only [isSpace, Bool.or_eq_true, beq_iff_eq] at h
  rcases h with ((rfl | rfl) | rfl) | rfl <;> decide

end Failing

/-! ## Tags without angle brackets -/

theorem Opening.not_mem_inside {o : Opening} {c : Char} (hspace : isSpace c = false)
    (hc : c ∉ ['=', '"', '\'']) (hplain : c ∈ "<>/='\"!?&".toList)
    (hvalue : ∀ a ∈ o.attributes, c ∉ a.value.toList) : c ∉ o.inside := by
  intro hmem
  have hnot (s : Space) : c ∉ s.chars := by
    intro h
    rw [s.isSpace_of_mem h] at hspace
    cases hspace
  simp only [List.mem_cons, List.not_mem_nil, or_false, not_or] at hc
  rw [Markup.Opening.inside, List.mem_append, List.mem_flatMap] at hmem
  rcases hmem with ⟨a, ha, hmem⟩ | hmem
  · have hquote : c ≠ a.quote.char := by
      cases a.quote
      · exact hc.2.1
      · exact hc.2.2
    simp only [Attribute.chars, Attribute.key, Attribute.quoted, List.mem_append, List.mem_cons,
      List.not_mem_nil, or_false] at hmem
    rcases hmem with (hmem | hmem | hmem | hmem | hmem) | hmem | hmem | hmem
    · exact hnot _ hmem
    · exact a.name.not_mem hplain hmem
    · exact hnot _ hmem
    · exact hc.1 hmem
    · exact hnot _ hmem
    · exact hquote hmem
    · exact hvalue a ha hmem
    · exact hquote hmem
  · exact hnot _ hmem

/-- No tag opens inside of a tag. -/
theorem Opening.bare_chars (o : Opening) : '<' ∉ o.chars := by
  rw [Markup.Opening.chars, List.mem_append, not_or]
  exact ⟨o.name.not_mem (by decide),
    Opening.not_mem_inside (by decide) (by decide) (by decide) fun a _ => a.plain.2⟩

theorem bare_closing (name : Name) (tail : Space) : '<' ∉ closing name tail := by
  rw [closing, List.mem_cons, List.mem_append, not_or, not_or]
  refine ⟨by decide, name.not_mem (by decide), fun h => ?_⟩
  exact absurd (tail.isSpace_of_mem h) (by decide)

/-! ## Matches -/

section Matches

variable {bound : Nat} {s : Cursor} {o : Opening} {after : List Char}

/-- What follows the attributes of a package reference: the end of the tag, or its content and the
tag that closes it. -/
def ending : Regex :=
  any [
    lit "/>",
    all [lit ">", group 3 (manyLazy (set .always)), lit "</PackageReference>"]]

/-- In the middle of the attributes the tag does not end. -/
theorem fails_ending {q rest : List Char} (hrest : s.rest = q ++ rest) (hne : q ≠ [])
    (hplain : '>' ∉ q) (hslash : q = ['/'] → rest.head? ≠ some '>') : Fails bound ending s := by
  obtain ⟨x, q, rfl⟩ := List.exists_cons_of_ne_nil hne
  have hx : x ≠ '>' := fun h => hplain (h ▸ List.mem_cons_self)
  have hempty : Fails bound (lit "/>") s := by
    apply Fails.lit
    rintro ⟨more, hmore⟩
    have hchars : '/' :: '>' :: more = x :: (q ++ rest) := hmore.trans hrest
    obtain ⟨rfl, hnext⟩ := List.cons.inj hchars
    cases q with
    | nil =>
      apply hslash rfl
      rw [← show '>' :: more = rest from hnext]
      rfl
    | cons y q =>
      obtain ⟨rfl, -⟩ := List.cons.inj hnext
      exact hplain (by simp)
  have hclosed : Fails bound (lit ">") s := by
    apply Fails.lit
    rintro ⟨more, hmore⟩
    rw [hrest] at hmore
    exact hx (List.cons.inj hmore).1.symm
  apply Fails.any
  simp only [List.mem_cons, List.not_mem_nil, or_false, forall_eq_or_imp, forall_eq]
  exact ⟨hempty, hclosed.seq _⟩

/-- A package reference is matched where its attributes are followed by their end. -/
theorem takes_packageReference {rest : List Char} {t : Cursor} (hplain : '>' ∉ o.inside)
    (hrest : s.rest = head ++ (o.inside ++ rest)) (hbound : s.rest.length ≤ bound)
    (hword : ∀ c ∈ (o.inside ++ rest).head?, Text.isWord c = false)
    (hslash : rest.head? ≠ some '>' ∨ o.inside.getLast? ≠ some '/')
    (hend : Takes bound ending (((s.past head).past o.inside).capture (s.past head) 1) t) :
    Takes bound packageReference s
      (t.capture (((s.past head).past o.inside).capture (s.past head) 1) 2) := by
  have hafter : (s.past head).rest = o.inside ++ rest := Cursor.rest_past hrest
  have hlit : Only bound (lit "<PackageReference") s (s.past head) := Only.lit hrest
  have hedge : Only bound edge (s.past head) (s.past head) := by
    apply Only.look
    have hbefore : (s.past head).before = some 'e' :=
      Cursor.before_past_concat s "<PackageReferenc".toList 'e'
    have hnone : (o.inside ++ rest).head?.any Text.isWord = false := by
      rw [Option.any_eq_false]
      exact fun c hc => by simp [hword c hc]
    rw [Anchor.holds, hafter, hbefore, hnone]
    rfl
  refine hlit.takes.seq (hedge.takes.seq (Takes.group_manyLazy hafter ?_ ?_ ?_
    ((hend.group 2).seq (Takes.empty _))))
  · intro c hc
    have hne : '>' ≠ c := fun h => hplain (h ▸ hc)
    simp [CharClass.notChars, CharClass.chars, CharClass.anyOf, CharClass.has, hne]
  · rw [hrest] at hbound
    simp only [List.length_append] at hbound
    omega
  · rintro p ⟨q, hq⟩ hproper
    refine Fails.seq (Fails.group ?_ 2) _
    have hne : q ≠ [] := by
      rintro rfl
      exact hproper (by rw [← hq, List.append_nil])
    have hnext : (((s.past head).past p).capture (s.past head) 1).rest = q ++ rest :=
      Cursor.rest_past (by rw [hafter, ← hq, List.append_assoc])
    refine fails_ending hnext hne ?_ ?_
    · exact fun h => hplain (hq ▸ List.mem_append_right p h)
    · rintro rfl
      refine hslash.resolve_right fun hlast => hlast ?_
      rw [← hq, List.getLast?_append]
      rfl

/-- A package reference that is empty. -/
theorem takes_ending_empty (hrest : s.rest = '/' :: '>' :: after) :
    Takes bound ending s (s.past ['/', '>']) :=
  Takes.any_cons (Only.lit (show s.rest = "/>".toList ++ after from hrest)).takes

theorem kindOf?_eq_iff (hclear : ClearName o.name) :
    kindOf? o = some .package ↔ o.name.text = "PackageReference" := by
  constructor
  · rw [← localPart_eq hclear]
    exact tagName_of_kindOf?
  · intro hname
    rw [kindOf?, localPart_eq hclear, hname]
    rfl

theorem not_foot_prefix_opening (o : Opening) (rest : List Char) :
    ¬ foot <+: '<' :: (o.chars ++ rest) := by
  rw [foot_eq, List.cons_prefix_cons, Markup.Opening.chars]
  obtain ⟨first, name, hname⟩ := o.name.exists_cons
  rw [hname, List.cons_append, List.cons_append, List.cons_prefix_cons]
  rintro ⟨-, rfl, -⟩
  exact o.name.not_mem (by decide) (hname ▸ List.mem_cons_self)

theorem not_foot_prefix_closing {name : Name} (hname : name.text ≠ "PackageReference")
    (tail : Space) (rest : List Char) :
    ¬ foot <+: bracketed (closing name tail) ++ rest := by
  rintro ⟨more, hmore⟩
  have hsplit : "PackageReference".toList ++ '>' :: more =
      name.text.toList ++ (tail.chars ++ '>' :: rest) := by
    simpa only [bracketed, closing, foot_eq, List.cons_append, List.append_assoc, List.nil_append,
      List.cons.injEq, true_and] using hmore
  have hword : ∀ c ∈ "PackageReference".toList, Markup.isNameChar c = true :=
    List.all_eq_true.mp (by decide)
  have hstop := not_isNameChar_head? (fun c hc => isBlank_of_isSpace (tail.isSpace_of_mem hc))
    (by decide : Markup.isNameChar '>' = false) rest
  have heq := eq_of_append_stop hword (List.all_eq_true.mp name.plain) (by rintro c ⟨⟩; decide) hstop
    hsplit
  exact hname (String.toList_inj.mp heq.symm)

/-- Within a package reference nothing looks like its end. -/
theorem failsAlong_foot {c : Content} (hlegible : Legible c) (hflat : Flat true c)
    (rest : List Char) :
    FailsAlong bound (seq (lit "</PackageReference>") empty) c.chars rest := by
  induction c generalizing rest with
  | done text => exact bracketing_foot.plain text.plain rest
  | aside text note more ih =>
    have hnote : ¬ foot <+: bracketed note.chars ++ (more.chars ++ rest) := by
      rintro ⟨zs, hzs⟩
      cases note <;> exact absurd (List.cons.inj (List.cons.inj hzs).2).1 (by decide)
    exact (bracketing_foot.plain text.plain _).append
      ((bracketing_foot.piece hlegible.1 (failsAt_foot hnote)).append (ih hlegible.2 hflat rest))
  | empty text opening more ih =>
    have hbare : '<' ∉ opening.chars ++ ['/'] := by
      simpa using Opening.bare_chars opening
    have hopening : ¬ foot <+: bracketed (opening.chars ++ ['/']) ++ (more.chars ++ rest) := by
      simpa [bracketed] using not_foot_prefix_opening opening _
    exact (bracketing_foot.plain text.plain _).append
      ((bracketing_foot.piece hbare (failsAt_foot hopening)).append
        (ih hlegible.2.2 hflat.2 rest))
  | element text opening inner tail more ihInner ihMore =>
    obtain ⟨hclear, -, hinner, hmore⟩ := hlegible
    obtain ⟨hkind, hflatInner, hflatMore⟩ := hflat
    have hname := (kindOf?_eq_iff hclear).not.mp (by simp [hkind rfl])
    have hopening (rest : List Char) : ¬ foot <+: bracketed opening.chars ++ rest := by
      simpa [bracketed] using not_foot_prefix_opening opening _
    refine (bracketing_foot.plain text.plain _).append ?_
    refine (bracketing_foot.piece (Opening.bare_chars opening)
      (failsAt_foot (hopening _))).append ?_
    refine (ihInner hinner hflatInner _).append ?_
    exact (bracketing_foot.piece (bare_closing _ _)
      (failsAt_foot (not_foot_prefix_closing hname tail _))).append (ihMore hmore hflatMore rest)

/-- A package reference with a content. -/
theorem takes_ending_content {c : Content} (hlegible : Legible c) (hflat : Flat true c)
    (hrest : s.rest = '>' :: (c.chars ++ (foot ++ after))) (hbound : s.rest.length ≤ bound) :
    Takes bound ending s
      ((((s.past ['>']).past c.chars).capture (s.past ['>']) 3).past foot) := by
  have hempty : Fails bound (lit "/>") s := Fails.lit (by simp [hrest])
  have hnext : (s.past ['>']).rest = c.chars ++ (foot ++ after) := Cursor.rest_past hrest
  have hbracket : Only bound (lit ">") s (s.past ['>']) :=
    Only.lit (show s.rest = ">".toList ++ (c.chars ++ (foot ++ after)) from hrest)
  have hcontent : (((s.past ['>']).past c.chars).capture (s.past ['>']) 3).rest = foot ++ after :=
    Cursor.rest_past hnext
  have hfoot : Takes bound (lit "</PackageReference>") _ _ := (Only.lit hcontent).takes
  refine Takes.any_tail hempty (hbracket.takes.seq (Takes.group_manyLazy hnext (fun _ _ => rfl) ?_ ?_
    (hfoot.seq (Takes.empty _))))
  · rw [hrest] at hbound
    simp only [List.length_cons, List.length_append] at hbound
    omega
  · rintro p ⟨q, hq⟩ hproper
    have hne : q ≠ [] := by
      rintro rfl
      exact hproper (by rw [← hq, List.append_nil])
    refine (failsAlong_foot hlegible hflat (foot ++ after) q hne ⟨p, hq⟩).fails ?_
    exact Cursor.rest_past (by rw [hnext, ← hq, List.append_assoc])

/-- What is captured of a package reference: its attributes and its content. -/
def captured (m : Match) : String × String := (m.group 1, m.group 3)

/-- The text of the attributes and of the content of a reference. -/
def Entry.texts (e : Entry) : String × String :=
  (String.ofList e.opening.inside, String.ofList ((e.inner.map Content.chars).getD []))

/-- Going through the matches captures these texts in some characters, and then goes on behind
them. -/
def Shows (bound : Nat) (cs : List Char) (texts : List (String × String)) (after : List Char) :
    Prop :=
  ∀ (s : Cursor) (fuel : Nat) (last : Option Nat), s.rest = cs ++ after → s.rest.length ≤ bound →
    s.rest.length < fuel →
    ∃ (t : Cursor) (fuel' : Nat) (last' : Option Nat), t.rest = after ∧ after.length < fuel' ∧
      (packageReference.matchesFrom bound fuel last s).map captured =
        texts ++ (packageReference.matchesFrom bound fuel' last' t).map captured

theorem advances_packageReference : Advances bound packageReference :=
  advances_of_leastLength (by decide)

theorem Shows.skip {cs : List Char} (h : FailsAlong bound packageReference cs after) :
    Shows bound cs [] after := by
  intro s fuel last hrest _ hfuel
  refine ⟨s.past cs, fuel, last, Cursor.rest_past hrest, ?_, ?_⟩
  · rw [hrest, List.length_append] at hfuel
    omega
  · rw [matchesFrom_congr advances_packageReference (h.search_eq hrest)]
    rfl

theorem Shows.append {cs ds : List Char} {texts more : List (String × String)}
    (h : Shows bound cs texts (ds ++ after)) (h' : Shows bound ds more after) :
    Shows bound (cs ++ ds) (texts ++ more) after := by
  intro s fuel last hrest hbound hfuel
  rw [List.append_assoc] at hrest
  obtain ⟨t, fuel', last', ht, hfuel', heq⟩ := h s fuel last hrest hbound hfuel
  have hlength : t.rest.length ≤ bound := by
    rw [hrest, List.length_append] at hbound
    rw [ht]
    omega
  obtain ⟨u, fuel'', last'', hu, hfuel'', heq'⟩ := h' t fuel' last' ht hlength (ht ▸ hfuel')
  exact ⟨u, fuel'', last'', hu, hfuel'', by rw [heq, heq', List.append_assoc]⟩

/-- A match that captures texts and ends behind some characters. -/
theorem Shows.single {cs : List Char} {texts : String × String} (hcs : cs ≠ [])
    (h : ∀ s : Cursor, s.rest = cs ++ after → s.groups = [] → s.rest.length ≤ bound →
      ∃ t, Takes bound packageReference s t ∧ t.rest = after ∧
        ∀ start stop chars, captured ⟨start, stop, chars, t.groups⟩ = texts) :
    Shows bound cs [texts] after := by
  intro s fuel last hrest hbound hfuel
  obtain ⟨t, htakes, ht, htexts⟩ := h { s with groups := [] } hrest rfl hbound
  obtain ⟨fuel, rfl⟩ : ∃ n, fuel = n + 1 := Nat.exists_eq_add_one.mpr (Nat.zero_lt_of_lt hfuel)
  refine ⟨t, fuel, some t.index, ht, ?_, ?_⟩
  · have hpos := List.length_pos_iff.mpr hcs
    rw [hrest, List.length_append] at hfuel
    omega
  · rw [matchesFrom_cons advances_packageReference htakes.search, List.map_cons, htexts]
    rfl

/-- What follows the name of a tag is no part of a word. -/
theorem not_isWord_inside {rest : List Char} (hrest : ∀ c ∈ rest.head?, Text.isWord c = false) :
    ∀ c ∈ (o.inside ++ rest).head?, Text.isWord c = false := by
  intro c hc
  rw [List.head?_append] at hc
  rcases Option.or_eq_some_iff.mp hc with hinside | ⟨-, hrest'⟩
  · exact not_isWord_of_isSpace (o.isSpace_head?_inside c hinside)
  · exact hrest c hrest'

theorem Citing.bare_inside (h : Citing o) : '>' ∉ o.inside :=
  Opening.not_mem_inside (by decide) (by decide) (by decide) fun a ha => (h.2 a ha).1

/-- A package reference without a content. -/
theorem shows_empty (hname : o.name.text = "PackageReference") (hciting : Citing o) :
    Shows bound (bracketed (o.chars ++ ['/'])) [Entry.texts ⟨.package, o, none⟩] after := by
  refine Shows.single (List.cons_ne_nil _ _) fun s hrest hgroups hbound => ?_
  have hhead : s.rest = head ++ (o.inside ++ '/' :: '>' :: after) := by
    rw [hrest, head_eq, bracketed, Markup.Opening.chars, hname]
    simp
  have hinside : (s.past head).rest = o.inside ++ '/' :: '>' :: after := Cursor.rest_past hhead
  have hend : (((s.past head).past o.inside).capture (s.past head) 1).rest = '/' :: '>' :: after :=
    Cursor.rest_past hinside
  refine ⟨_, takes_packageReference hciting.bare_inside hhead hbound
    (not_isWord_inside (by rintro c ⟨⟩; decide)) (.inl (by simp)) (takes_ending_empty hend),
    Cursor.rest_past hend, fun start stop chars => ?_⟩
  rw [Cursor.capture_past hinside]
  simp [captured, Match.group, Match.group?, Cursor.capture, hgroups, Entry.texts, List.lookup]

/-- A package reference with a content. -/
theorem shows_element (hname : o.name.text = "PackageReference") (hciting : Citing o)
    {c : Content} (hlegible : Legible c) (hflat : Flat true c) {tail : Space}
    (htail : tail.chars = []) :
    Shows bound (bracketed o.chars ++ (c.chars ++ bracketed (closing o.name tail)))
      [Entry.texts ⟨.package, o, some c⟩] after := by
  refine Shows.single (List.cons_ne_nil _ _) fun s hrest hgroups hbound => ?_
  have hhead : s.rest = head ++ (o.inside ++ '>' :: (c.chars ++ (foot ++ after))) := by
    rw [hrest, head_eq, foot_eq, bracketed, bracketed, closing, Markup.Opening.chars, hname, htail]
    simp
  have hinside : (s.past head).rest = o.inside ++ '>' :: (c.chars ++ (foot ++ after)) :=
    Cursor.rest_past hhead
  have hend : (((s.past head).past o.inside).capture (s.past head) 1).rest =
      '>' :: (c.chars ++ (foot ++ after)) := Cursor.rest_past hinside
  have hlength := (Cursor.length_rest_past_le (s.past head) o.inside).trans
    (Cursor.length_rest_past_le s head)
  refine ⟨_, takes_packageReference hciting.bare_inside hhead hbound
    (not_isWord_inside (by rintro c ⟨⟩; decide)) (.inr o.getLast?_inside_ne)
    (takes_ending_content hlegible hflat hend (hlength.trans hbound)), ?_,
    fun start stop chars => ?_⟩
  · exact Cursor.rest_past (Cursor.rest_past (Cursor.rest_past hend))
  · have hcontent : ((((s.past head).past o.inside).capture (s.past head) 1).past ['>']).rest =
        c.chars ++ (foot ++ after) := Cursor.rest_past hend
    rw [Cursor.capture_past hcontent, Cursor.capture_past hinside]
    simp [captured, Match.group, Match.group?, Cursor.capture, hgroups, Entry.texts, List.lookup]

/-- The tag of an element that is no package reference. -/
theorem failsAt_tag (hclear : ClearName o.name) (hkind : kindOf? o ≠ some .package)
    {rest : List Char} (hrest : ∀ c ∈ rest.head?, Text.isWord c = false) :
    FailsAt bound packageReference ('<' :: (o.chars ++ rest)) := by
  rw [Markup.Opening.chars, List.append_assoc]
  exact failsAt_opening hclear ((kindOf?_eq_iff hclear).not.mp hkind) (not_isWord_inside hrest)

/-- What stands in angle brackets and is no package reference. -/
theorem shows_piece {cs : List Char} (hcs : '<' ∉ cs)
    (h : FailsAt bound packageReference (bracketed cs ++ after)) :
    Shows bound (bracketed cs) [] after :=
  .skip (bracketing_packageReference.piece hcs h)

theorem packages_empty (text : Passage) (o : Opening) (rest : Content) :
    packages (.empty text o rest) =
      (if kindOf? o = some .package then [⟨.package, o, none⟩] else []) ++ packages rest := by
  cases h : kindOf? o with
  | none => simp [packages, entriesOf, h]
  | some kind => cases kind <;> simp [packages, entriesOf, h]

theorem packages_element {text : Passage} {inner rest : Content} {tail : Space}
    (hflat : Flat false (.element text o inner tail rest)) :
    packages (.element text o inner tail rest) =
      (if kindOf? o = some .package then [⟨.package, o, some inner⟩] else packages inner) ++
        packages rest := by
  cases h : kindOf? o with
  | none => simp [packages, entriesOf, h]
  | some kind =>
    have hinner : entriesOf inner = [] := entriesOf_eq_nil (by simpa [h] using hflat.2.1)
    cases kind <;> simp [packages, entriesOf, h, hinner]

/-- The matches in a content are its package references. -/
theorem shows_content {c : Content} (hlegible : Legible c) (hflat : Flat false c)
    (after : List Char) : Shows bound c.chars ((packages c).map Entry.texts) after := by
  have hplain (passage : Passage) (rest : List Char) : Shows bound passage.text.toList [] rest :=
    .skip (bracketing_packageReference.plain passage.plain rest)
  induction c generalizing after with
  | done text => exact hplain text after
  | aside text note rest ih =>
    exact (hplain text _).append
      ((shows_piece hlegible.1 (failsAt_aside note _)).append (ih hlegible.2 hflat after))
  | empty text opening rest ih =>
    obtain ⟨hclear, hciting, hrest⟩ := hlegible
    refine (hplain text _).append ?_
    rw [packages_empty]
    by_cases hkind : kindOf? opening = some .package
    · rw [if_pos hkind]
      exact (shows_empty ((kindOf?_eq_iff hclear).mp hkind) (hciting hkind)).append
        (ih hrest hflat.2 after)
    · rw [if_neg hkind]
      have hbare : '<' ∉ opening.chars ++ ['/'] := by simpa using Opening.bare_chars opening
      refine (shows_piece hbare ?_).append (ih hrest hflat.2 after)
      rw [bracketed, List.cons_append, List.append_assoc, List.append_assoc]
      exact failsAt_tag hclear hkind (by rintro c ⟨⟩; decide)
  | element text opening inner tail rest ihInner ihRest =>
    obtain ⟨hclear, hciting, hinner, hrest⟩ := hlegible
    refine (hplain text _).append ?_
    rw [packages_element hflat, List.map_append]
    by_cases hkind : kindOf? opening = some .package
    · have hwithin : Flat true inner := by simpa [hkind] using hflat.2.1
      have hshows := (shows_element ((kindOf?_eq_iff hclear).mp hkind) (hciting hkind).1 hinner
        hwithin (hciting hkind).2).append (ihRest hrest hflat.2.2 after)
      rw [if_pos hkind, List.map_singleton]
      simpa only [List.append_assoc] using hshows
    · rw [if_neg hkind]
      refine (shows_piece (Opening.bare_chars opening) ?_).append
        ((ihInner hinner hflat.inner _).append ((shows_piece (bare_closing _ _)
          (failsAt_closing _ _ _)).append (ihRest hrest hflat.2.2 after)))
      rw [bracketed, List.cons_append, List.append_assoc]
      exact failsAt_tag hclear hkind (by rintro c ⟨⟩; decide)

/-- The matches in a project are its package references. -/
theorem captured_findAll {d : Markup.Document} (hlegible : Legible d.content)
    (hflat : Flat false d.content) :
    (packageReference.findAll d.text).map captured = (packages d.content).map Entry.texts := by
  have hmark : Shows d.text.length (if d.marked then ['\ufeff'] else []) [] d.content.chars := by
    refine Shows.skip (bracketing_packageReference.plain ?_ _)
    cases d.marked <;> decide
  have hcontent : Shows d.text.length d.content.chars _ [] := shows_content hlegible hflat []
  rw [← List.append_nil d.content.chars] at hmark
  have hrest : (Cursor.ofChars d.text.toList).rest.length = d.text.length := String.length_toList
  obtain ⟨t, fuel, last, ht, -, heq⟩ := hmark.append hcontent (Cursor.ofChars d.text.toList)
    (2 * d.text.length + 2) none (by simp [Cursor.ofChars, Markup.Document.text])
    hrest.le (by omega)
  have hend : packageReference.matchesFrom d.text.length fuel last t = [] :=
    matchesFrom_end (bracketing_packageReference [] (Option.some_ne_none _).symm) ht fuel last
  rw [hend] at heq
  simpa [Regex.findAll] using heq

end Matches

end CodeSurvey.Project
