import CodeSurvey.Proofs.Detect.Guards
import CodeSurvey.Proofs.Regex.Readings

/-!
# Secrets and the guards of their rule

The expression for secrets finds a key word in any letter case, some of them with or without a mark
in them, but the rule searches a source only if one of its guards occurs there, each in one
spelling. Where a guard occurs every secret is reported, and where none does nothing is. Every
secret has a key word in its name, and the spellings of key words that are never missed are just the
guards.
-/

namespace CodeSurvey.Detect

open Regex

/-! ## Key words -/

/-- A key word, or two words that may have a mark between them. -/
inductive KeyForm where
  | plain (word : String)
  | joined (first second : String)

def KeyForm.regex : KeyForm → Regex
  | plain word => litAnyCase word
  | joined first second => all [litAnyCase first, opt (set (.chars "_-")), litAnyCase second]

def KeyForm.words : KeyForm → List String
  | plain word => [word]
  | joined first second => [first ++ second, first ++ "_" ++ second, first ++ "-" ++ second]

def keyForms : List KeyForm := [
  .plain "password", .plain "passwd", .plain "pwd", .plain "secret", .joined "api" "key",
  .joined "access" "key", .plain "token", .joined "connection" "string"]

/-- The key words in lower case, with and without the marks. -/
def keyWords : List String := keyForms.flatMap KeyForm.words

example : keyWords = [
    "password", "passwd", "pwd", "secret", "apikey", "api_key", "api-key", "accesskey",
    "access_key",
    "access-key", "token", "connectionstring", "connection_string", "connection-string"] := by
  decide

/-- The parts of a form are in lower case. -/
def KeyForm.folded : KeyForm → Bool
  | plain word => word.toList.map Text.foldCase == word.toList
  | joined first second =>
    first.toList.map Text.foldCase == first.toList &&
      second.toList.map Text.foldCase == second.toList

theorem KeyForm.spans_regex {form : KeyForm} (h : form.folded = true) :
    Spans form.regex fun xs => ∃ word ∈ form.words, Spells word xs := by
  cases form with
  | plain word =>
    refine (spans_litAnyCase (eq_of_beq h)).congr fun xs => ?_
    simp [words]
  | joined first second =>
    obtain ⟨hfirst, hsecond⟩ := Bool.and_eq_true_iff.mp h
    have hmark : Spans (opt (set (.chars "_-"))) fun xs => xs = ['_'] ∨ xs = ['-'] ∨ xs = [] := by
      refine (spans_set _).opt.congr fun xs => ?_
      simp [CharClass.chars, CharClass.anyOf, CharClass.has, or_and_right, exists_or, or_assoc]
    refine ((spans_litAnyCase (eq_of_beq hfirst)).seq (hmark.seq
      ((spans_litAnyCase (eq_of_beq hsecond)).seq spans_empty))).congr fun xs => ?_
    have hunderscore (ms : List Char) : Spells "_" ms ↔ ms = ['_'] :=
      spells_singleton rfl (by decide)
    have hhyphen (ms : List Char) : Spells "-" ms ↔ ms = ['-'] :=
      spells_singleton rfl (by decide)
    simp only [words, List.mem_cons, List.not_mem_nil, or_false, exists_eq_or_imp, exists_eq_left,
      spells_append, hunderscore, hhyphen]
    constructor
    · rintro ⟨ys, _, rfl, hys, ms, _, rfl, hms, zs, _, rfl, hzs, rfl⟩
      rw [List.append_nil]
      rcases hms with rfl | rfl | rfl
      · exact .inr (.inl ⟨_, zs, (List.append_assoc _ _ _).symm, ⟨ys, _, rfl, hys, rfl⟩, hzs⟩)
      · exact .inr (.inr ⟨_, zs, (List.append_assoc _ _ _).symm, ⟨ys, _, rfl, hys, rfl⟩, hzs⟩)
      · exact .inl ⟨ys, zs, rfl, hys, hzs⟩
    · rintro (⟨ys, zs, rfl, hys, hzs⟩ | ⟨_, zs, rfl, ⟨ys, _, rfl, hys, rfl⟩, hzs⟩ |
        ⟨_, zs, rfl, ⟨ys, _, rfl, hys, rfl⟩, hzs⟩)
      · exact ⟨ys, zs, rfl, hys, [], zs, rfl, .inr (.inr rfl), zs, [], by simp, hzs, rfl⟩
      · exact ⟨ys, '_' :: zs, by simp, hys, ['_'], zs, rfl, .inl rfl, zs, [], by simp, hzs, rfl⟩
      · exact ⟨ys, '-' :: zs, by simp, hys, ['-'], zs, rfl, .inr (.inl rfl), zs, [], by simp, hzs,
          rfl⟩

/-! ## The parts of an assignment -/

/-- The characters of a name beside its key word. -/
def nameChar : CharClass := .anyCase (.anyOf [.range 'a' 'z', .digit, .one '_'])

def quoteMark : CharClass := .chars "\"'"

/-- The characters of a text that is assigned. -/
def valueChar : CharClass := .noneOf [.blank, .chars "\"'"]

/-- A key word with other characters of a name around it. -/
def IsKey (key : List Char) : Prop :=
  ∃ front word back, key = front ++ (word ++ back) ∧ (∀ x ∈ front, nameChar.has x = true) ∧
    (∃ w ∈ keyWords, Spells w word) ∧ ∀ x ∈ back, nameChar.has x = true

def keyRegex : Regex :=
  all [many (set nameChar), any (keyForms.map KeyForm.regex), many (set nameChar)]

theorem spans_keyRegex : Spans keyRegex IsKey := by
  have hfolded : ∀ form ∈ keyForms, form.folded = true := by decide
  have hword : Spans (any (keyForms.map KeyForm.regex)) fun xs => ∃ w ∈ keyWords, Spells w xs := by
    refine (Spans.any fun form hform => form.spans_regex (hfolded form hform)).congr fun xs => ?_
    simp only [keyWords, List.mem_flatMap]
    constructor
    · rintro ⟨form, hform, word, hword, hspells⟩
      exact ⟨word, ⟨form, hform, hword⟩, hspells⟩
    · rintro ⟨word, ⟨form, hform, hword⟩, hspells⟩
      exact ⟨form, hform, word, hword, hspells⟩
  refine ((spans_many nameChar).seq (hword.seq ((spans_many nameChar).seq spans_empty))).congr
    fun xs => ?_
  constructor
  · rintro ⟨front, _, rfl, hfront, word, _, rfl, hword, back, _, rfl, hback, rfl⟩
    rw [List.append_nil]
    exact ⟨front, word, back, rfl, hfront, hword, hback⟩
  · rintro ⟨front, word, back, rfl, hfront, hword, hback⟩
    exact ⟨front, _, rfl, hfront, word, _, rfl, hword, back, [], by simp, hback, rfl⟩

/-- What stands between a name and the text assigned to it: a sign with blanks around it, where a
quote may close the name, and the opening quote of the text. -/
def linkParts : List Regex :=
  [opt (set quoteMark), blanks, oneOf [":=", "=", ":"], blanks, opt (lit "@"), set quoteMark]

def IsLink (link : List Char) : Prop :=
  ∃ close gap sign gap' mark : List Char, ∃ quote : Char,
    link = close ++ (gap ++ (sign ++ (gap' ++ (mark ++ [quote])))) ∧
      ((∃ x, quoteMark.has x = true ∧ close = [x]) ∨ close = []) ∧
      (∀ x ∈ gap, Text.isBlank x = true) ∧ (∃ w ∈ [":=", "=", ":"], sign = w.toList) ∧
      (∀ x ∈ gap', Text.isBlank x = true) ∧ (mark = ['@'] ∨ mark = []) ∧
      quoteMark.has quote = true

theorem spans_linkParts : Spans (all linkParts) IsLink := by
  refine ((spans_set quoteMark).opt.seq ((spans_many .blank).seq ((Spans.any fun w _ =>
    spans_lit w).seq ((spans_many .blank).seq ((spans_lit "@").opt.seq
      ((spans_set quoteMark).seq spans_empty)))))).congr fun xs => ?_
  constructor
  · rintro ⟨close, _, rfl, hclose, gap, _, rfl, hgap, sign, _, rfl, hsign, gap', _, rfl, hgap',
      mark, _, rfl, hmark, _, _, rfl, ⟨quote, hquote, rfl⟩, rfl⟩
    rw [List.append_nil]
    exact ⟨close, gap, sign, gap', mark, quote, rfl, hclose, hgap, hsign, hgap', hmark, hquote⟩
  · rintro ⟨close, gap, sign, gap', mark, quote, rfl, hclose, hgap, hsign, hgap', hmark, hquote⟩
    exact ⟨close, _, rfl, hclose, gap, _, rfl, hgap, sign, _, rfl, hsign, gap', _, rfl, hgap',
      mark, _, rfl, hmark, [quote], [], by simp, ⟨quote, hquote, rfl⟩, rfl⟩

theorem isLink_equals : IsLink ['=', '"'] :=
  ⟨[], [], ['='], [], [], '"', rfl, .inr rfl, by simp, ⟨"=", by simp, rfl⟩, by simp, .inr rfl,
    by decide⟩

/-- Whether a character can stand right after a name. -/
def isDelimiter (x : Char) : Bool :=
  quoteMark.has x || Text.isBlank x || x == ':' || x == '='

theorem IsLink.two_le {link : List Char} (h : IsLink link) : 2 ≤ link.length := by
  obtain ⟨close, gap, sign, gap', mark, quote, rfl, -, -, ⟨w, hw, rfl⟩, -⟩ := h
  have hsigns : ∀ w ∈ [":=", "=", ":"], 1 ≤ w.toList.length := by decide
  have hsign := hsigns w hw
  simp only [List.length_append, List.length_singleton]
  omega

theorem IsLink.exists_cons {link : List Char} (h : IsLink link) :
    ∃ x rest, link = x :: rest ∧ isDelimiter x = true := by
  obtain ⟨close, gap, sign, gap', mark, quote, rfl, hclose, hgap, ⟨w, hw, rfl⟩, -⟩ := h
  rcases hclose with ⟨x, hx, rfl⟩ | rfl
  · exact ⟨x, _, rfl, by simp [isDelimiter, hx]⟩
  · cases gap with
    | cons x gap => exact ⟨x, _, rfl, by simp [isDelimiter, hgap x List.mem_cons_self]⟩
    | nil =>
      simp only [List.mem_cons, List.not_mem_nil, or_false] at hw
      rcases hw with rfl | rfl | rfl
      · exact ⟨':', _, rfl, by decide⟩
      · exact ⟨'=', _, rfl, by decide⟩
      · exact ⟨':', _, rfl, by decide⟩

/-! ## Assignments -/

theorem secretAssignment_eq :
    secretAssignment = all ([edge, group 1 keyRegex] ++ (linkParts ++
      [group 2 (atLeast 8 (set valueChar)), set quoteMark])) := rfl

/-- A text that is assigned. -/
def IsValue (value : List Char) : Prop := 8 ≤ value.length ∧ ∀ x ∈ value, valueChar.has x = true

/-- An assignment at the start of some characters. -/
structure Assigns (key value cs : List Char) : Prop where
  isKey : IsKey key
  isValue : IsValue value
  split : ∃ link quote rest, IsLink link ∧ quoteMark.has quote = true ∧
    cs = key ++ (link ++ (value ++ quote :: rest))

theorem exists_assigns_of_reads {s u : Cursor} (h : Reads secretAssignment s u) :
    ∃ key value start start', Assigns key value s.rest ∧
      u.groups = (2, ⟨start', value⟩) :: (1, ⟨start, key⟩) :: s.groups := by
  simp only [secretAssignment_eq, reads_all_append, reads_all_cons, reads_all_nil, edge,
    reads_look] at h
  obtain ⟨t, ⟨s, ⟨-, rfl⟩, _, hname, rfl⟩, t', hlink, t'', htext, _, hquote, rfl⟩ := h
  obtain ⟨key, hkey, hrest, hgroups⟩ := spans_keyRegex.of_reads_group hname
  obtain ⟨link, hlink, hrest', hgroups'⟩ := spans_linkParts.of_reads hlink
  obtain ⟨value, hvalue, hrest'', hgroups''⟩ := (spans_atLeast 8 valueChar).of_reads_group htext
  obtain ⟨_, ⟨quote, hmark, rfl⟩, hclose, hlast⟩ := (spans_set quoteMark).of_reads hquote
  have hall : s.rest = key ++ (link ++ (value ++ quote :: u.rest)) := by
    rw [hrest, hrest', hrest'', hclose, List.singleton_append]
  have hcaptured : u.groups = (2, ⟨t'.index, value⟩) :: (1, ⟨s.index, key⟩) :: s.groups := by
    rw [hlast, hgroups'', hgroups', hgroups]
  exact ⟨key, value, _, _, ⟨hkey, hvalue, link, quote, u.rest, hlink, hmark, hall⟩, hcaptured⟩

theorem exists_reads_of_assigns {s : Cursor} {key value : List Char}
    (hedge : Anchor.wordEdge.holds s = true) (h : Assigns key value s.rest) :
    ∃ u, Reads secretAssignment s u := by
  obtain ⟨hkey, hvalue, link, quote, rest, hlink, hmark, hrest⟩ := h
  obtain ⟨t, hname, hrest⟩ := spans_keyRegex.exists_reads_group 1 hkey hrest
  obtain ⟨t', hlink, hrest⟩ := spans_linkParts.exists_reads hlink hrest
  obtain ⟨t'', htext, hrest⟩ := (spans_atLeast 8 valueChar).exists_reads_group 2 hvalue hrest
  obtain ⟨u, hquote, -⟩ := (spans_set quoteMark).exists_reads ⟨quote, hmark, rfl⟩ hrest
  refine ⟨u, ?_⟩
  simp only [secretAssignment_eq, reads_all_append, reads_all_cons, reads_all_nil, edge, reads_look]
  exact ⟨t, ⟨s, ⟨hedge, rfl⟩, t, hname, rfl⟩, t', hlink, t'', htext, u, hquote, rfl⟩

/-- The groups of a match are the key and the value of an assignment. -/
theorem exists_assigns_of_groups {s u : Cursor} {m : Match} (h : Reads secretAssignment s u)
    (hs : s.groups = []) (hm : m.groups = u.groups) :
    ∃ key value, Assigns key value s.rest ∧ m.group 1 = String.ofList key ∧
      m.group 2 = String.ofList value := by
  obtain ⟨key, value, start, start', hassigns, hu⟩ := exists_assigns_of_reads h
  rw [hu, hs] at hm
  refine ⟨key, value, hassigns, ?_, ?_⟩
  · simp [Match.group, Match.group?, hm, List.lookup]
  · simp [Match.group, Match.group?, hm]

theorem exists_assigns_of_mem_findAll {source : String} {m : Match}
    (h : m ∈ secretAssignment.findAll source) :
    ∃ key value cs, Assigns key value cs ∧ m.group 1 = String.ofList key := by
  obtain ⟨before, cs, index, u, -, hread, hgroups⟩ := exists_reads_of_mem_findAll h
  obtain ⟨key, value, hassigns, hkey, -⟩ := exists_assigns_of_groups hread rfl hgroups
  exact ⟨key, value, cs, hassigns, hkey⟩

/-! ## Reports -/

/-- The assignments of texts that are neither references nor placeholders, with their lines. -/
def assignments (scene : Scene) : List (Nat × Match) :=
  (scene.matchesOf secretAssignment).filter fun p => !isPlaceholder (p.2.group 2)

section Reports

variable (name : String)

/-- Each of the assignments is reported once, in the order of the source, on its line and with its
key, and nothing else is. -/
def SecretsReported (scene : Scene) : Prop :=
  (hardcodedSecret name).findings scene = (assignments scene).map fun p =>
    (hardcodedSecret name).finding scene
      { spot := .line p.1
        implementation := "Hardcoded secret assigned to '" ++ p.2.group 1 ++ "'"
        metadata := [("key", .str (p.2.group 1))] }

/-- No assignment to a name with this spelling of a key word in it is missed. -/
def NeverMissed (spelling : String) : Prop :=
  ∀ scene, (∃ p ∈ assignments scene, Text.Occurs spelling (p.2.group 1)) →
    SecretsReported name scene

variable {name} {scene : Scene}

theorem secretsReported_of_occurs {g : String} (hg : g ∈ (hardcodedSecret name).guards)
    (h : Text.Occurs g scene.source) : SecretsReported name scene := by
  rw [SecretsReported, Rule.findings_of_occurs hg h, Rule.unguarded]
  exact List.map_map

theorem secretsReported_iff :
    SecretsReported name scene ↔
      assignments scene = [] ∨ ∃ g ∈ (hardcodedSecret name).guards, Text.Occurs g scene.source := by
  by_cases hguard : ∃ g ∈ (hardcodedSecret name).guards, Text.Occurs g scene.source
  · obtain ⟨g, hg, hoccurs⟩ := hguard
    exact ⟨fun _ => .inr ⟨g, hg, hoccurs⟩, fun _ => secretsReported_of_occurs hg hoccurs⟩
  · have hnone : (hardcodedSecret name).findings scene = [] :=
      Rule.findings_of_not_occurs (by simp [hardcodedSecret]) fun g hg hoccurs =>
        hguard ⟨g, hg, hoccurs⟩
    rw [SecretsReported, hnone, eq_comm, List.map_eq_nil_iff, or_iff_left hguard]

end Reports

/-! ## Spellings that are never missed -/

theorem mem_findAll_of_mem_assignments {scene : Scene} {p : Nat × Match}
    (h : p ∈ assignments scene) : p.2 ∈ secretAssignment.findAll scene.source := by
  obtain ⟨m, hm, rfl⟩ := List.mem_map.mp (List.mem_filter.mp h).1
  exact hm

/-- The key of a match has a key word in it. -/
theorem exists_keyWord {source : String} {m : Match} (h : m ∈ secretAssignment.findAll source) :
    ∃ word ∈ keyWords, ∃ spelling : String, Spells word spelling.toList ∧
      Text.Occurs spelling (m.group 1) := by
  obtain ⟨key, value, cs, hassigns, hkey⟩ := exists_assigns_of_mem_findAll h
  obtain ⟨front, word, back, rfl, -, ⟨w, hw, hspells⟩, -⟩ := hassigns.isKey
  refine ⟨w, hw, String.ofList word, by rwa [String.toList_ofList], ?_⟩
  rw [hkey, Text.Occurs, String.toList_ofList, String.toList_ofList]
  exact ⟨front, back, List.append_assoc _ _ _⟩

theorem neverMissed_of_mem {name spelling : String} (h : spelling ∈ (hardcodedSecret name).guards) :
    NeverMissed name spelling := by
  rintro scene ⟨p, hp, hoccurs⟩
  have hkey := (within_of_mem_findAll (mem_findAll_of_mem_assignments hp)).2 1
  exact secretsReported_of_occurs h (hoccurs.trans hkey)

/-- What holds of the variants of the characters of key words holds of their spellings. -/
theorem all_of_spells {word : String} {xs : List Char} (hword : word ∈ keyWords)
    (h : Spells word xs) {p : Char → Bool}
    (hp : ∀ w ∈ keyWords, w.toList.all fun c => (Text.caseVariants c).all p) :
    ∀ x ∈ xs, p x = true := by
  intro x hx
  have hfold : Text.foldCase x ∈ word.toList := by
    rw [← h.map_foldCase]
    exact List.mem_map_of_mem hx
  have hvariants := List.all_eq_true.mp (hp word hword) _ hfold
  exact List.all_eq_true.mp hvariants x (Text.mem_caseVariants_foldCase x)

theorem not_isDelimiter_of_spells {word : String} {xs : List Char} (hword : word ∈ keyWords)
    (h : Spells word xs) : ∀ x ∈ xs, ¬ isDelimiter x = true := by
  have hplain := all_of_spells hword h (p := fun x => !isDelimiter x) (by decide)
  intro x hx
  simpa using hplain x hx

theorem equals_not_mem_of_isKey {key : List Char} (h : IsKey key) : '=' ∉ key := by
  obtain ⟨front, word, back, rfl, hfront, ⟨w, hw, hspells⟩, hback⟩ := h
  have hname : nameChar.has '=' = false := by decide
  have hword : '=' ∉ word := by
    intro hmem
    have hne := all_of_spells hw hspells (p := (· != '=')) (by decide) '=' hmem
    cases hne
  simp only [List.mem_append, not_or]
  refine ⟨fun hmem => ?_, hword, fun hmem => ?_⟩
  · rw [hfront '=' hmem] at hname
    cases hname
  · rw [hback '=' hmem] at hname
    cases hname

/-- The text that is assigned below. -/
def plainSecret : List Char := "12345678".toList

/-- A source with one assignment, to the spelling of a key word. -/
def oneSecret (spelling : String) : Scene where
  filePath := "settings.py"
  context := "app"
  source := String.ofList (spelling.toList ++ '=' :: '"' :: (plainSecret ++ ['"']))

theorem toList_oneSecret (spelling : String) :
    (oneSecret spelling).source.toList =
      spelling.toList ++ '=' :: '"' :: (plainSecret ++ ['"']) := String.toList_ofList

/-- Two texts that are equal up to marks that neither has before it are equal. -/
theorem eq_of_append_cons_eq {α : Type} {xs ys xs' ys' : List α} {x y : α} (hx : x ∉ ys)
    (hy : y ∉ xs) (h : xs ++ x :: xs' = ys ++ y :: ys') : xs = ys := by
  rcases List.append_eq_append_iff.mp h with ⟨zs, rfl, hzs⟩ | ⟨zs, rfl, hzs⟩
  · cases zs with
    | nil => exact (List.append_nil xs).symm
    | cons z zs =>
      obtain ⟨rfl, -⟩ := List.cons_eq_cons.mp hzs
      exact absurd (List.mem_append_right xs List.mem_cons_self) hx
  · cases zs with
    | nil => exact List.append_nil ys
    | cons z zs =>
      obtain ⟨rfl, -⟩ := List.cons_eq_cons.mp hzs
      exact absurd (List.mem_append_right ys List.mem_cons_self) hy

section Spelling

variable {word spelling : String} (hword : word ∈ keyWords) (hspells : Spells word spelling.toList)

include hword hspells

/-- The source can be read in one way only. -/
theorem eq_of_assigns_oneSecret {key value : List Char}
    (h : Assigns key value (oneSecret spelling).source.toList) :
    key = spelling.toList ∧ value = plainSecret := by
  rw [toList_oneSecret] at h
  obtain ⟨link, quote, rest, hlink, -, hsplit⟩ := h.split
  obtain ⟨x, link', rfl, hx⟩ := hlink.exists_cons
  have hdelimiter : x ∉ spelling.toList := fun hmem =>
    absurd hx (not_isDelimiter_of_spells hword hspells x hmem)
  have hkeys : spelling.toList = key :=
    eq_of_append_cons_eq (equals_not_mem_of_isKey h.isKey) hdelimiter hsplit
  rw [hkeys, List.append_cancel_left_eq] at hsplit
  -- eleven characters are left, of which the link takes two and the value eight
  have hsecret : plainSecret.length = 8 := by decide
  have hlength := congrArg List.length hsplit
  have hlink := hlink.two_le
  have hvalue := h.isValue.1
  simp only [List.length_cons, List.length_append, List.length_nil, hsecret] at hlength hlink
  have hparts : ['=', '"'] ++ (plainSecret ++ ['"']) = (x :: link') ++ (value ++ quote :: rest) :=
    hsplit
  have hafter :=
    List.append_inj_right hparts (by simp only [List.length_cons, List.length_nil]; omega)
  exact ⟨hkeys.symm, (List.append_inj_left hafter (by omega)).symm⟩

theorem assigns_oneSecret :
    Assigns spelling.toList plainSecret (oneSecret spelling).source.toList := by
  have hvalue : plainSecret.all valueChar.has = true := by decide
  refine ⟨?_, ⟨by decide, List.all_eq_true.mp hvalue⟩, ?_⟩
  · exact ⟨[], spelling.toList, [], by simp, by simp, ⟨word, hword, hspells⟩, by simp⟩
  · exact ⟨['=', '"'], '"', [], isLink_equals, by decide, toList_oneSecret spelling⟩

/-- A key word begins with a letter. -/
theorem wordEdge_oneSecret :
    Anchor.wordEdge.holds (Cursor.ofChars (oneSecret spelling).source.toList) = true := by
  have hheads : ∀ w ∈ keyWords,
      w.toList.head?.any fun c => (Text.caseVariants c).all Text.isWord := by
    decide
  rw [toList_oneSecret]
  have hhead := hheads word hword
  rw [← hspells.map_foldCase] at hhead
  cases hchars : spelling.toList with
  | nil =>
    rw [hchars] at hhead
    cases hhead
  | cons x xs =>
    rw [hchars, List.map_cons, List.head?_cons, Option.any_some] at hhead
    have hx := List.all_eq_true.mp hhead x (Text.mem_caseVariants_foldCase x)
    simp [Anchor.holds, Cursor.ofChars, hx]

theorem exists_mem_assignments_oneSecret :
    ∃ p ∈ assignments (oneSecret spelling), p.2.group 1 = spelling := by
  obtain ⟨u, hread⟩ := exists_reads_of_assigns (wordEdge_oneSecret hword hspells)
    (assigns_oneSecret hword hspells)
  obtain ⟨m, hm, u, hread, hgroups⟩ := exists_mem_findAll_of_reads hread
  obtain ⟨key, value, hunique, hkey, hvalue⟩ := exists_assigns_of_groups hread rfl hgroups
  obtain ⟨rfl, rfl⟩ := eq_of_assigns_oneSecret hword hspells hunique
  have hplain : isPlaceholder (String.ofList plainSecret) = false := by decide
  refine ⟨(m.line (oneSecret spelling).source, m), List.mem_filter.mpr ⟨?_, ?_⟩, ?_⟩
  · exact List.mem_map_of_mem hm
  · rw [hvalue, hplain, Bool.not_false]
  · rw [hkey, String.ofList_toList]

/-- A guard that stands in the spelling of a key word is the whole of it. -/
theorem eq_of_occurs_oneSecret {name g : String} (hg : g ∈ (hardcodedSecret name).guards)
    (h : Text.Occurs g (oneSecret spelling).source) : g = spelling := by
  have hguards : ∀ g ∈ (hardcodedSecret "").guards, '=' ∉ g.toList ∧
      ¬ g.toList <:+: '"' :: (plainSecret ++ ['"']) := by
    decide
  have hlengths : ∀ g ∈ (hardcodedSecret "").guards, ∀ w ∈ keyWords,
      g.toList.map Text.foldCase <:+: w.toList → g.toList.length = w.toList.length := by
    decide
  obtain ⟨hequals, hrest⟩ := hguards g hg
  rw [Text.Occurs, toList_oneSecret] at h
  have hinside := (Text.infix_or_infix_of_not_mem hequals h).resolve_right hrest
  have hfold : g.toList.map Text.foldCase <:+: word.toList := by
    rw [← hspells.map_foldCase]
    exact hinside.map _
  have hlength : g.toList.length = spelling.toList.length := by
    rw [hlengths g hg word hword hfold, ← hspells.map_foldCase, List.length_map]
  exact String.toList_inj.mp (hinside.eq_of_length hlength)

theorem mem_of_neverMissed {name : String} (hnever : NeverMissed name spelling) :
    spelling ∈ (hardcodedSecret name).guards := by
  obtain ⟨p, hp, hkey⟩ := exists_mem_assignments_oneSecret hword hspells
  have hall := hnever (oneSecret spelling) ⟨p, hp, hkey ▸ List.infix_refl _⟩
  rcases secretsReported_iff.mp hall with hnone | ⟨g, hg, hoccurs⟩
  · exact absurd hnone (List.ne_nil_of_mem hp)
  · exact eq_of_occurs_oneSecret hword hspells hg hoccurs ▸ hg

end Spelling

/-! ## Main statement -/

/-- Every assignment of a text that is neither a reference nor a placeholder is reported, and nothing
else, if there is none or if one of the guards occurs in the source. Else nothing is reported. The
key of each match stands in the source and has a key word in it, in some spelling, and a spelling of
a key word is never missed just if it is one of the guards. -/
theorem secrets_reported (name : String) (scene : Scene) :
    (SecretsReported name scene ↔
        assignments scene = [] ∨
          ∃ g ∈ (hardcodedSecret name).guards, Text.Occurs g scene.source) ∧
      (¬ SecretsReported name scene → (hardcodedSecret name).findings scene = []) ∧
      (∀ m ∈ secretAssignment.findAll scene.source, Text.Occurs (m.group 1) scene.source ∧
        ∃ word ∈ keyWords, ∃ spelling : String, Spells word spelling.toList ∧
          Text.Occurs spelling (m.group 1)) ∧
      ∀ word ∈ keyWords, ∀ spelling : String, Spells word spelling.toList →
        (NeverMissed name spelling ↔ spelling ∈ (hardcodedSecret name).guards) := by
  refine ⟨secretsReported_iff, fun hmissed => ?_,
    fun m hm => ⟨(within_of_mem_findAll hm).2 1, exists_keyWord hm⟩,
    fun word hword spelling hspells => ⟨mem_of_neverMissed hword hspells, neverMissed_of_mem⟩⟩
  exact Rule.findings_of_not_occurs (by simp [hardcodedSecret]) fun g hg hoccurs =>
    hmissed (secretsReported_of_occurs hg hoccurs)

/-- A source that assigns a secret to a name with one of the guards in it. -/
def camelName : Scene where
  filePath := "a.ts"
  context := "app"
  source := "const apiKey = 'abcd1234efgh'\n"

/-- The secret is reported, as any with this spelling in its name, but not with another one. -/
theorem secrets_camelName :
    (assignments camelName).map (fun p => (p.1, p.2.group 1)) = [(1, "apiKey")] ∧
      SecretsReported "TS_HardcodedSecret" camelName ∧
      NeverMissed "TS_HardcodedSecret" "apiKey" ∧ ¬ NeverMissed "TS_HardcodedSecret" "APIKEY" := by
  obtain ⟨hreported, -, -, hspelling⟩ := secrets_reported "TS_HardcodedSecret" camelName
  have hmem : "apikey" ∈ keyWords := by decide
  refine ⟨by decide +kernel, hreported.mpr (.inr ⟨"apiKey", by decide, by decide⟩), ?_, ?_⟩
  · exact (hspelling "apikey" hmem "apiKey" (by decide)).mpr (by decide)
  · rw [hspelling "apikey" hmem "APIKEY" (by decide)]
    decide

/-- A source that assigns a secret to a name without any of the guards in it. -/
def shortName : Scene where
  filePath := "a.vb"
  context := "app"
  source := "Dim pwd = \"Hunter2Hunter2\"\n"

/-- The secret is there and is not reported. -/
theorem secret_missed_shortName :
    (assignments shortName).map (fun p => (p.1, p.2.group 1, p.2.group 2)) =
        [(1, "pwd", "Hunter2Hunter2")] ∧
      (hardcodedSecret "VB_HardcodedSecret").findings shortName = [] := by
  decide +kernel

end CodeSurvey.Detect
