import CodeSurvey.Proofs.Bicep.References
import CodeSurvey.Proofs.Code.Literals

/-!
# Names in literals

The lines of a declaration are searched for names without the inside of literals. A literal can hold
expressions between `${` and `}`, and what these name is lost with the rest of the inside. So a
declaration uses a symbol just if the symbol is also named outside of all literals.
-/

namespace CodeSurvey.Bicep

open Code (InCode Inside IsQuote codeOf)

/-- An equals sign stands in the code of a text. -/
def EqualsIn (text : List Char) : Prop := ∃ head tail, text = head ++ '=' :: tail ∧ InCode head

/-- A name stands in the code of a line, outside of literals and comments, as a whole word and not
directly behind a dot. In a header it stands behind the equals sign, if there is one. -/
def NamedOutside (name : String) (isHeader : Prop) (line : List Char) : Prop :=
  ∃ before after, line = before ++ (name.toList ++ after) ∧ InCode before ∧
    (∀ c ∈ before.getLast?, Text.isWord c = false ∧ c ≠ '.') ∧
    (∀ c ∈ after.head?, Text.isWord c = false) ∧ (isHeader → EqualsIn before ∨ ¬ EqualsIn line)

section Lines

variable {name : String} {line code : List Char}

theorem equals_mem_codeOf_iff : '=' ∈ codeOf line ↔ EqualsIn line :=
  Code.mem_codeOf_iff (by decide) (by decide)

theorem not_isQuote_of_isWord {c : Char} (h : Text.isWord c = true) : ¬ IsQuote c ∧ c ≠ '/' := by
  constructor
  · rintro (rfl | rfl)
    · exact absurd h (by decide)
    · exact absurd h (by decide)
  · rintro rfl
    exact absurd h (by decide)

/-- A word ends in the code of a line where it ends in the line. -/
theorem forall_head?_codeOf_iff (after : List Char) :
    (∀ c ∈ (codeOf after).head?, Text.isWord c = false) ↔
      ∀ c ∈ after.head?, Text.isWord c = false := by
  rcases Code.head?_codeOf after with h | ⟨hnone, hslash⟩
  · rw [h]
  · rw [hnone, hslash]
    simp only [Option.mem_def, Option.some.injEq, forall_eq', reduceCtorEq, false_implies,
      implies_true, true_iff]
    decide

theorem afterEquals_append {head : List Char} (h : '=' ∉ head) (tail : List Char) :
    afterEquals (head ++ '=' :: tail) = tail := by
  have hhead : ∀ c ∈ head, (c != '=') = true := by
    intro c hc
    exact bne_iff_ne.mpr fun heq => h (heq ▸ hc)
  rw [afterEquals, if_pos (by simp), List.dropWhile_append_of_pos hhead,
    List.dropWhile_cons_of_neg (by decide), List.tail_cons]

/-- Behind the first equals sign of a code, in terms of the whole. -/
theorem namedIn_afterEquals_iff :
    NamedIn name (afterEquals code) ↔
      ∃ before after, code = before ++ (name.toList ++ after) ∧
        (∀ c ∈ before.getLast?, Text.isWord c = false ∧ c ≠ '.') ∧
        (∀ c ∈ after.head?, Text.isWord c = false) ∧ ('=' ∈ before ∨ '=' ∉ code) := by
  constructor
  · intro h
    by_cases hmem : '=' ∈ code
    · obtain ⟨head, tail, rfl, hhead⟩ := List.eq_append_cons_of_mem hmem
      rw [afterEquals_append hhead] at h
      obtain ⟨before, after, rfl, hbefore, hafter⟩ := h
      refine ⟨head ++ '=' :: before, after, by simp, ?_, hafter, .inl (by simp)⟩
      intro c hc
      rw [List.getLast?_append_cons, List.getLast?_cons] at hc
      cases hlast : before.getLast? with
      | none =>
        obtain rfl : '=' = c := by simpa [hlast] using hc
        decide
      | some x =>
        obtain rfl : x = c := by simpa [hlast] using hc
        exact hbefore x hlast
    · rw [afterEquals, if_neg hmem] at h
      obtain ⟨before, after, hcode, hbefore, hafter⟩ := h
      exact ⟨before, after, hcode, hbefore, hafter, .inr hmem⟩
  · rintro ⟨before, after, rfl, hbefore, hafter, hmem | hnone⟩
    · obtain ⟨head, tail, rfl, hhead⟩ := List.eq_append_cons_of_mem hmem
      rw [List.append_assoc, List.cons_append, afterEquals_append hhead]
      refine ⟨tail, after, rfl, fun c hc => hbefore c ?_, hafter⟩
      rw [List.getLast?_append_cons, List.getLast?_cons, Option.mem_def.mp hc]
      rfl
    · rw [afterEquals, if_neg hnone]
      exact ⟨before, after, rfl, hbefore, hafter⟩

/-- Names in the code of a line stand in the line behind code. -/
theorem exists_codeOf_eq_iff (line : List Char) (hne : name.toList ≠ [])
    (hword : ∀ c ∈ name.toList, Text.isWord c = true) (Q : Prop) :
    (∃ before after, codeOf line = before ++ (name.toList ++ after) ∧
        (∀ c ∈ before.getLast?, Text.isWord c = false ∧ c ≠ '.') ∧
        (∀ c ∈ after.head?, Text.isWord c = false) ∧ ('=' ∈ before ∨ Q)) ↔
      ∃ before after, line = before ++ (name.toList ++ after) ∧ InCode before ∧
        (∀ c ∈ before.getLast?, Text.isWord c = false ∧ c ≠ '.') ∧
        (∀ c ∈ after.head?, Text.isWord c = false) ∧ (EqualsIn before ∨ Q) := by
  have hplain : ∀ c ∈ name.toList, ¬ IsQuote c ∧ c ≠ '/' :=
    fun c hc => not_isQuote_of_isWord (hword c hc)
  simp only [Code.codeOf_eq_iff hne hplain]
  constructor
  · rintro ⟨_, _, ⟨before, after, hline, hcode, rfl, rfl⟩, hbefore, hafter, hequals⟩
    rw [hcode.getLast?_codeOf] at hbefore
    rw [forall_head?_codeOf_iff] at hafter
    rw [equals_mem_codeOf_iff] at hequals
    exact ⟨before, after, hline, hcode, hbefore, hafter, hequals⟩
  · rintro ⟨before, after, hline, hcode, hbefore, hafter, hequals⟩
    rw [← hcode.getLast?_codeOf] at hbefore
    rw [← forall_head?_codeOf_iff] at hafter
    rw [← equals_mem_codeOf_iff] at hequals
    exact ⟨_, _, ⟨before, after, hline, hcode, rfl, rfl⟩, hbefore, hafter, hequals⟩

/-- A line is searched for names where they stand outside of literals. -/
theorem namedIn_searched_iff {lines : List String} {first number : Nat} (hne : name.toList ≠ [])
    (hword : ∀ c ∈ name.toList, Text.isWord c = true) :
    NamedIn name (searched lines first number) ↔
      NamedOutside name (number = first) (lines.getD (number - 1) "").toList := by
  rw [searched, NamedOutside]
  generalize (lines.getD (number - 1) "").toList = line
  rw [show Code.codeChars "//".toList none line = codeOf line from rfl]
  split
  · next hfirst =>
    rw [namedIn_afterEquals_iff, exists_codeOf_eq_iff line hne hword, equals_mem_codeOf_iff]
    simp only [hfirst, true_implies]
  · next hfirst => simpa [hfirst, NamedIn] using exists_codeOf_eq_iff line hne hword True

/-- The lines on which a block names something, in terms of what stands outside of literals. -/
theorem namesOn_iff {lines : List String} {o : Outline} {number : Nat}
    (hbegins : BeginsName name.toList) (hword : ∀ c ∈ name.toList, Text.isWord c = true) :
    NamesOn lines o name number ↔ o.firstLine ≤ number ∧ number ≤ o.last ∧
      NamedOutside name (number = o.firstLine) (lines.getD (number - 1) "").toList := by
  obtain ⟨c, hc, -⟩ := hbegins
  have hne : name.toList ≠ [] := List.ne_nil_of_mem (List.mem_of_mem_head? hc)
  rw [NamesOn, namedIn_searched_iff hne hword]

end Lines

/-! ## Uses -/

/-- Two declarations that share a line are the same. -/
theorem Cut.eq_of_shared {t : Template} {i n : Nat} {ms : List Member} {a b : Member}
    (hcut : Cut t i ms) (hcode : t.code.length = t.raw.length) (ha : a ∈ ms) (hb : b ∈ ms)
    (hna : a.start ≤ n ∧ n ≤ a.stop) (hnb : b.start ≤ n ∧ n ≤ b.stop) : a = b := by
  by_contra hne
  have hsymm : Std.Symm fun a b : Member => a.stop < b.start ∨ b.stop < a.start :=
    ⟨fun _ _ => Or.symm⟩
  have hapart : ms.Pairwise fun a b => a.stop < b.start ∨ b.stop < a.start :=
    (hcut.sorted hcode).imp .inl
  have hsplit := hapart.forall ha hb hne
  omega

section Survey

variable (settings : Settings) (fs : FileSystem) {source : Source}

/-- A declaration uses another symbol just if the symbol begins like a name and is named on one of
its lines outside of literals and comments. What stands behind a quote that has not been closed, as
an expression in a literal does, is not outside. -/
theorem uses_iff_named_outside (hlive : source.cancelled = false) {o : Outline}
    (ho : o ∈ (survey settings fs source).blocks) {name : String}
    (hname : name ∈ (survey settings fs source).blocks.map (·.name)) (hown : name ≠ o.name) :
    ((∃ rel ∈ (survey settings fs source).relationsOf .uses, rel.source = o.name ∧
        rel.target = name ∧
        ∃ number, rel.line? = some number ∧ o.firstLine ≤ number ∧ number ≤ o.last) ↔
      BeginsName name.toList ∧ ∃ number, o.firstLine ≤ number ∧ number ≤ o.last ∧
        NamedOutside name (number = o.firstLine)
          ((Text.lines source.content).getD (number - 1) "").toList) ∧
      ∀ quote before inside, InCode before → IsQuote quote → Inside quote inside →
        ¬ InCode (before ++ quote :: (inside ++ ['$', '\x7b'])) := by
  have hcode := ofText_code_length source.path source.content
  have hwords := isWord_of_mem_names settings fs hlive hname
  have hmem := @mem_uses_members_iff settings fs source hlive
  rw [blocks_survey settings fs source hlive] at ho
  obtain ⟨m, hm, rfl⟩ := List.mem_map.mp ho
  rw [relationsOf_uses settings fs hlive]
  refine ⟨⟨?_, ?_⟩, ?_⟩
  · rintro ⟨rel, hrel, -, htarget, number, hline, hfirst, hlast⟩
    obtain ⟨a, ha, hrel⟩ := List.mem_flatMap.mp hrel
    obtain ⟨⟨found, line⟩, hu, rfl⟩ := List.mem_map.mp hrel
    rw [target_relation] at htarget
    rw [line?_relation] at hline
    obtain rfl : found = name := htarget
    obtain rfl : line = number := Option.some.inj hline
    obtain ⟨-, -, hbegins, hnames, -⟩ := (hmem ha).mp hu
    -- the line of the relation lies in the one declaration and in the other
    obtain rfl : a = m := by
      have hfirst' : a.start + 1 ≤ line := hnames.1
      have hlast' := hnames.2.1
      rw [last_outlineOf] at hlast hlast'
      change m.start + 1 ≤ line at hfirst
      exact (cut_members hcode).eq_of_shared hcode (n := line - 1) ha hm (by omega) (by omega)
    exact ⟨hbegins, line, (namesOn_iff hbegins hwords).mp hnames⟩
  · rintro ⟨hbegins, number, hnamed⟩
    have hnames : Set.Nonempty {n | NamesOn (Text.lines source.content)
        (outlineOf (.ofText source.path source.content) m) name n} :=
      ⟨number, (namesOn_iff hbegins hwords).mpr hnamed⟩
    have hleast := isLeast_csInf hnames
    have hu := (hmem hm).mpr ⟨hname, hown, hbegins, hleast⟩
    exact ⟨_, List.mem_flatMap.mpr ⟨m, hm, List.mem_map_of_mem hu⟩, source_relation _ _ _ _ _,
      target_relation _ _ _ _ _, _, line?_relation _ _ _ _ _, hleast.1.1, hleast.1.2.1⟩
  · intro quote before inside hbefore hquote hinside
    have hsign : Inside quote ['$', '\x7b'] := by
      rcases hquote with rfl | rfl
      · exact .char (by decide) (by decide) (.char (by decide) (by decide) .nil)
      · exact .char (by decide) (by decide) (.char (by decide) (by decide) .nil)
    exact Code.not_inCode_of_inside hbefore hquote (hinside.append hsign)

end Survey

/-- A greeting that names a parameter in a literal, and one that also names it behind the literal. -/
def greetingSource : Source where
  path := "main.bicep"
  content := Text.joinLines [
    "param name string", "var greeting = 'hello $\x7bname\x7d'",
    "var letter = concat('dear $\x7bname\x7d', name)"]

theorem survey_greeting :
    (survey {} {} greetingSource).blocks.map (fun o => (o.name, o.firstLine, o.last)) =
        [("name", 1, 1), ("greeting", 2, 2), ("letter", 3, 3)] ∧
      ((survey {} {} greetingSource).relationsOf .uses).map
          (fun rel => (rel.source, rel.target, rel.line?)) = [("letter", "name", some 3)] := by
  decide +kernel

/-- The first greeting names the parameter and does not use it. -/
theorem interpolation_unseen :
    (survey {} {} greetingSource).blocks.map (fun o => (o.name, o.firstLine, o.last)) =
        [("name", 1, 1), ("greeting", 2, 2), ("letter", 3, 3)] ∧
      ("var greeting = 'hello $\x7bname\x7d'").toList = "var greeting = ".toList ++
        '\'' :: ("hello $\x7b".toList ++ ("name".toList ++ "\x7d'".toList)) ∧
      ((survey {} {} greetingSource).relationsOf .uses).map
          (fun rel => (rel.source, rel.target, rel.line?)) = [("letter", "name", some 3)] :=
  ⟨survey_greeting.1, by decide, survey_greeting.2⟩

/-- The first greeting names the parameter nowhere outside of its literal, the second one does. -/
theorem uses_iff_named_outside_greetings :
    ∃ greeting ∈ (survey {} {} greetingSource).blocks, greeting.name = "greeting" ∧
      ∃ letter ∈ (survey {} {} greetingSource).blocks, letter.name = "letter" ∧
        (¬ ∃ number, greeting.firstLine ≤ number ∧ number ≤ greeting.last ∧
          NamedOutside "name" (number = greeting.firstLine)
            ((Text.lines greetingSource.content).getD (number - 1) "").toList) ∧
        ∃ number, letter.firstLine ≤ number ∧ number ≤ letter.last ∧
          NamedOutside "name" (number = letter.firstLine)
            ((Text.lines greetingSource.content).getD (number - 1) "").toList := by
  obtain ⟨hblocks, huses⟩ := survey_greeting
  have hfound (x : String × Nat × Nat)
      (hx : x ∈ [("name", 1, 1), ("greeting", 2, 2), ("letter", 3, 3)]) :
      ∃ o ∈ (survey {} {} greetingSource).blocks, (o.name, o.firstLine, o.last) = x := by
    rwa [← hblocks, List.mem_map] at hx
  obtain ⟨parameter, hparameter, hp⟩ := hfound ("name", 1, 1) (by decide)
  obtain ⟨greeting, hgreeting, hg⟩ := hfound ("greeting", 2, 2) (by decide)
  obtain ⟨letter, hletter, hl⟩ := hfound ("letter", 3, 3) (by decide)
  obtain ⟨rel, hrel, hr⟩ : ∃ rel ∈ (survey {} {} greetingSource).relationsOf .uses,
      (rel.source, rel.target, rel.line?) = ("letter", "name", some 3) := by
    rw [← List.mem_map, huses]
    exact List.mem_singleton_self _
  simp only [Prod.mk.injEq] at hp hg hl hr
  have hname : "name" ∈ (survey {} {} greetingSource).blocks.map (·.name) :=
    List.mem_map.mpr ⟨parameter, hparameter, hp.1⟩
  have hunused := (uses_iff_named_outside {} {} rfl hgreeting hname (by simp [hg.1])).1
  have hused := (uses_iff_named_outside {} {} rfl hletter hname (by simp [hl.1])).1
  refine ⟨greeting, hgreeting, hg.1, letter, hletter, hl.1, ?_, ?_⟩
  · intro hnamed
    obtain ⟨other, hother, hsource, -⟩ := hunused.mpr ⟨⟨'n', rfl, rfl⟩, hnamed⟩
    have hmem := List.mem_map_of_mem (f := fun rel => (rel.source, rel.target, rel.line?)) hother
    rw [huses, List.mem_singleton, hsource, hg.1] at hmem
    exact absurd (Prod.mk.inj hmem).1 (by decide)
  · exact (hused.mp ⟨rel, hrel, hr.1.trans hl.1.symm, hr.2.1, 3, hr.2.2, hl.2.1.le, hl.2.2.ge⟩).2

end CodeSurvey.Bicep
