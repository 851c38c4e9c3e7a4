import CodeSurvey.Proofs.Bicep.References

/-!
# Decorators above a parameter

A decorator is read from one line. Where it is written over several lines, the lines after the first
are no decorators, and unless they are blank or comments they end the wait of all that was gathered
above. So a parameter gets the decorators below the last one that goes on like that.
-/

namespace CodeSurvey.Bicep

/-! ## A decorator on a line -/

section Reading

open Regex

variable {name tail : List Char}

/-- A text that begins with a decorator of a name: the name goes on with a bracket or not at all. -/
def OpensDecorator (name : List Char) (text : List Char) : Prop :=
  ∃ tail, text = '@' :: (name ++ tail) ∧ ∀ c ∈ tail.head?, c = '('

/-- The name of a decorator is read up to the bracket. -/
theorem exists_find?_decorator {text : String} (hne : name ≠ [])
    (hword : ∀ c ∈ name, Text.isWord c = true) (h : OpensDecorator name text.toList) :
    ∃ m, decorator.find? text = some m ∧ m.group 1 = String.ofList name := by
  obtain ⟨tail, htext, htail⟩ := h
  have hlength : name.length ≤ text.length := by
    rw [← String.length_toList, htext]
    simp only [List.length_cons, List.length_append]
    omega
  have hsign : (Cursor.ofChars text.toList).rest = "@".toList ++ (name ++ tail) := htext
  have hrest := Cursor.rest_past hsign
  -- a name has no dot in it, so it is not taken for a qualified one
  have hplain : ¬ "sys.".toList <+: name ++ tail := by
    intro hqualified
    have hinside : "sys.".toList <+: name := by
      cases tail with
      | nil => rwa [List.append_nil] at hqualified
      | cons c tail =>
        obtain rfl : c = '(' := htail c rfl
        exact prefix_of_prefix_append (by decide) hqualified
    exact absurd (hword '.' (hinside.subset (by decide))) (by decide)
  have hstop (c : Char) (hc : c ∈ tail.head?) :
      CharClass.word.has c = false ∧ CharClass.blank.has c = false := by
    rw [htail c hc]
    decide
  have hname : Takes text.length (plus word) _ _ :=
    Takes.plus_set hne hrest hword (fun c hc => (hstop c hc).1) hlength
  have hafter : (((Cursor.ofChars text.toList).past "@".toList).past name).rest = [] ++ tail :=
    Cursor.rest_past hrest
  have hblanks : Takes text.length blanks ((((Cursor.ofChars text.toList).past "@".toList).past
      name).capture ((Cursor.ofChars text.toList).past "@".toList) 1) _ :=
    Takes.many_set hafter (by simp) (fun c hc => (hstop c hc).2) (Nat.zero_le _)
  have htakes : Takes text.length (all [lit "@", opt (lit "sys."), group 1 (plus word), blanks]) _ _ :=
    (Only.lit hsign).takes.seq ((Only.opt (Fails.lit (by rwa [hrest]))).takes.seq
      ((hname.group 1).seq (hblanks.seq (Takes.empty _))))
  have hend : ∀ t, Reads (all [opt (all [lit "(", group 2 (many (set .notNewline)), lit ")"])]) t t :=
    fun _ => .seq (.right .empty) .empty
  have hshort := (Cursor.length_rest_past_le ((Cursor.ofChars text.toList).past "@".toList) name).trans
    (Cursor.length_rest_past_le (Cursor.ofChars text.toList) "@".toList)
  obtain ⟨m, hm, hgroups⟩ := htakes.exists_find? (hshort.trans String.length_toList.le) (hend _)
  refine ⟨m, hm, ?_⟩
  rw [Match.group, Match.group?, hgroups 1 (by decide), Cursor.past, Cursor.capture_past hrest,
    List.lookup_cons_self]
  rfl

/-- A shorter text with the whole name in it. -/
theorem OpensDecorator.cut {text front : List Char} (h : OpensDecorator name text)
    (hfront : front <+: text) (hname : '@' :: name <+: front) : OpensDecorator name front := by
  obtain ⟨tail, rfl, htail⟩ := h
  obtain ⟨more, rfl⟩ := hname
  obtain ⟨cut, rfl⟩ : more <+: tail := (List.prefix_append_right_inj ('@' :: name)).mp hfront
  refine ⟨more, rfl, fun c hc => htail c ?_⟩
  rw [List.head?_append, hc]
  rfl

theorem rdropWhile_append_of_last {p : Char → Bool} {xs : List Char} {x : Char}
    (hx : p x = false) (ys : List Char) :
    (xs ++ [x] ++ ys).rdropWhile p = xs ++ [x] ++ ys.rdropWhile p := by
  induction ys using List.reverseRecOn with
  | nil =>
    rw [List.append_nil, List.rdropWhile_concat_neg _ _ _ (by simp [hx]), List.rdropWhile_nil,
      List.append_nil]
  | append_singleton ys y ih =>
    rw [← List.append_assoc, List.rdropWhile_concat, List.rdropWhile_concat]
    split
    · exact ih
    · rw [List.append_assoc]

/-- Neither end of a name is taken off with the blanks around a decorator. -/
theorem OpensDecorator.trim {text : String} (hne : name ≠ [])
    (hword : ∀ c ∈ name, Text.isWord c = true) (h : OpensDecorator name text.toList) :
    OpensDecorator name (Text.trim text).toList := by
  obtain ⟨front, last, rfl⟩ : ∃ front last, name = front ++ [last] :=
    (List.eq_nil_or_concat' name).resolve_left hne
  have hlast : Text.isBlank last = false := Text.isBlank_eq_false_of_isWord (hword last (by simp))
  obtain ⟨tail, htext, htail⟩ := h
  have htrim : (Text.trim text).toList =
      '@' :: (front ++ [last] ++ tail.rdropWhile Text.isBlank) := by
    rw [Text.trim, Text.toList_trimWhere, htext, List.dropWhile_cons_of_neg (by decide)]
    have hcut : ('@' :: front ++ [last] ++ tail).rdropWhile Text.isBlank = _ :=
      rdropWhile_append_of_last hlast tail
    exact hcut
  have hopens : OpensDecorator (front ++ [last]) ('@' :: (front ++ [last] ++ tail)) :=
    ⟨tail, rfl, htail⟩
  rw [htrim]
  refine hopens.cut ?_ (List.prefix_append ('@' :: (front ++ [last])) _)
  exact (List.prefix_append_right_inj ('@' :: (front ++ [last]))).mpr (List.rdropWhile_prefix _ _)

end Reading

/-! ## Decorators over several lines -/

/-- A decorator as it is written, with its name and the text between its brackets, if it has any. -/
structure WrittenDecorator where
  name : String
  arguments : Option String
  name_ne : name.toList ≠ []
  isWord_name : ∀ c ∈ name.toList, Text.isWord c = true

namespace WrittenDecorator

variable (d : WrittenDecorator)

def text : String :=
  match d.arguments with
  | none => "@" ++ d.name
  | some arguments => "@" ++ d.name ++ "(" ++ arguments ++ ")"

def lines : List String := Text.lines d.text

def continuation : List String := d.lines.tail

theorem opensDecorator_text : OpensDecorator d.name.toList d.text.toList := by
  unfold text
  split
  · exact ⟨[], by simp, by simp⟩
  · next arguments _ => exact ⟨'(' :: (arguments.toList ++ [')']), by simp, by simp⟩

end WrittenDecorator

theorem linesOf_of_not_mem {line : List Char} (h : '\n' ∉ line) (pending : List Char)
    (hne : pending.reverse ++ line ≠ []) : Text.linesOf pending line = [pending.reverse ++ line] := by
  induction line generalizing pending with
  | nil =>
    rw [List.append_nil] at hne ⊢
    rw [Text.linesOf, if_neg (by simpa using hne)]
  | cons c line ih =>
    obtain ⟨hc, hline⟩ := List.ne_and_not_mem_of_not_mem_cons h
    rw [Text.linesOf, if_neg (Ne.symm hc), ih hline _ (by simp), List.reverse_cons,
      List.append_assoc, List.singleton_append]

/-- A carriage return at the end of a line is no part of a name. -/
theorem OpensDecorator.prefix_dropReturn {name line : List Char} (hne : name ≠ [])
    (hword : ∀ c ∈ name, Text.isWord c = true) (h : OpensDecorator name line) :
    '@' :: name <+: Text.dropReturn line := by
  obtain ⟨tail, rfl, -⟩ := h
  rw [Text.dropReturn]
  split
  · next hreturn =>
    cases tail with
    | nil =>
      rw [List.append_nil, List.getLast?_cons_of_ne_nil hne] at hreturn
      exact absurd (hword _ (List.mem_of_getLast? hreturn)) (by decide)
    | cons c tail =>
      rw [← List.cons_append, List.dropLast_append_cons]
      exact List.prefix_append _ _
  · exact List.prefix_append ('@' :: name) tail

/-- The first line of a text that begins with a decorator begins with it. -/
theorem OpensDecorator.exists_lines {name : List Char} {text : String}
    (hne : name ≠ []) (hword : ∀ c ∈ name, Text.isWord c = true)
    (h : OpensDecorator name text.toList) :
    ∃ first more, Text.lines text = first :: more ∧ OpensDecorator name first.toList := by
  by_cases hbreak : '\n' ∈ text.toList
  · obtain ⟨line, rest, htext, hline⟩ := List.eq_append_cons_of_mem hbreak
    have hnewline : '\n' ∉ '@' :: name := by
      rw [List.mem_cons, not_or]
      exact ⟨by decide, fun hmem => absurd (hword _ hmem) (by decide)⟩
    have hname : '@' :: name <+: line := by
      obtain ⟨tail, heq, -⟩ := h
      have hlong : '@' :: name <+: line ++ '\n' :: rest := by
        rw [← htext, heq]
        exact List.prefix_append ('@' :: name) tail
      exact prefix_of_prefix_append hnewline hlong
    have hfirst : OpensDecorator name line := h.cut ⟨'\n' :: rest, htext.symm⟩ hname
    refine ⟨String.ofList (Text.dropReturn line), (Text.linesOf [] rest).map String.ofList, ?_, ?_⟩
    · rw [Text.lines, htext, Text.linesOf_break hline]
      rfl
    · rw [String.toList_ofList]
      exact hfirst.cut (Text.prefix_dropReturn line) (hfirst.prefix_dropReturn hne hword)
  · refine ⟨text, [], ?_, h⟩
    obtain ⟨tail, htext, -⟩ := h
    rw [Text.lines, linesOf_of_not_mem hbreak [] (by simp [htext])]
    simp

/-! ## Gathering decorators -/

/-- Blank lines and comments, over which decorators wait. -/
def keeps (line : String) : Bool :=
  (Text.trim line).isEmpty || Text.startsWith "//" (Text.trim line)

/-- What a line that declares nothing does to the decorators gathered above it. -/
def gather (pending : List (String × String)) (line : String) : List (String × String) :=
  match decorator? line with
  | some d => pending ++ [d]
  | none => if keeps line then pending else []

/-- A line that is read neither as a decorator nor as a declaration. -/
def Inert (line : String) : Prop := decorator? line = none ∧ declared? (Text.trim line) = none

/-- What begins like something else is neither blank nor a comment. -/
theorem keeps_eq_false {mark : List Char} {line : String} (h : mark <+: (Text.trim line).toList)
    (hne : mark ≠ []) (hmark : ¬ ("//".toList <+: mark ∨ mark <+: "//".toList)) :
    keeps line = false := by
  rw [keeps, Bool.or_eq_false_iff, ← Bool.not_eq_true, ← Bool.not_eq_true]
  constructor
  · intro hempty
    rw [String.isEmpty_iff.mp hempty] at h
    exact hne (List.prefix_nil.mp h)
  · intro hcomment
    exact hmark (List.prefix_or_prefix_of_prefix (List.isPrefixOf_iff_prefix.mp hcomment) h)

theorem inert_of_keeps {line : String} (h : keeps line = true) : Inert line := by
  constructor
  · rw [decorator?, Option.map_eq_none_iff, Option.eq_none_iff_forall_ne_some]
    intro m hm
    rw [keeps_eq_false (Regex.prefix_of_find? hm).1 (by decide) (by decide)] at h
    cases h
  · rw [Option.eq_none_iff_forall_ne_some]
    rintro ⟨shape, symbol⟩ hdeclared
    obtain ⟨m, hm, -⟩ := Shape.declared?_eq_some_iff.mp hdeclared
    rw [keeps_eq_false (Shape.keyword_starts hm) (by cases shape <;> decide)
      (by cases shape <;> decide)] at h
    cases h

section Items

variable {t : Template} {start : Nat} {pending : List (String × String)}

theorem membersIn_itemsFrom_gather {line : String} {rest : List String}
    (h : declared? (Text.trim line) = none) :
    membersIn (itemsFrom t 0 start pending (line :: rest)) =
      membersIn (itemsFrom t 0 (start + 1) (gather pending line) rest) := by
  rw [itemsFrom, if_neg (Nat.lt_irrefl 0)]
  simp only [membersIn_append, membersIn_scopes, List.nil_append]
  cases hd : decorator.find? (Text.trim line) with
  | some m => simp only [gather, decorator?, hd, Option.map_some]
  | none =>
    simp only [gather, decorator?, hd, Option.map_none, h, keeps]
    rfl

/-- Lines that declare nothing are passed over, and what they gather is kept. -/
theorem membersIn_itemsFrom_above {above rest : List String}
    (h : ∀ line ∈ above, declared? (Text.trim line) = none) :
    membersIn (itemsFrom t 0 start pending (above ++ rest)) =
      membersIn (itemsFrom t 0 (start + above.length) (above.foldl gather pending) rest) := by
  induction above generalizing start pending with
  | nil => rfl
  | cons line above ih =>
    obtain ⟨hline, habove⟩ := List.forall_mem_cons.mp h
    rw [List.cons_append, membersIn_itemsFrom_gather hline, ih habove, List.foldl_cons,
      List.length_cons, Nat.add_assoc, Nat.add_comm 1]

/-- A declaration gets what has been gathered. -/
theorem membersIn_itemsFrom_declares {shape : Shape} {symbol line : String} {rest : List String}
    (h : shape.Declares symbol line) :
    membersIn (itemsFrom t 0 start pending (line :: rest)) =
      ⟨shape, symbol, start, spanEnd t start, pending⟩ ::
        membersIn (itemsFrom t (spanEnd t start - start) (start + 1) [] rest) := by
  have hdeclared := Shape.declared?_eq_some_iff.mpr h
  have hnone : decorator.find? (Text.trim line) = none := by
    rw [Option.eq_none_iff_forall_ne_some]
    intro m hm
    rw [Shape.declared?_of_decorator hm] at hdeclared
    cases hdeclared
  rw [itemsFrom, if_neg (Nat.lt_irrefl 0)]
  simp only [membersIn_append, membersIn_scopes, List.nil_append, hnone, hdeclared]
  rfl

theorem itemsFrom_skip (t : Template) (skip start : Nat) (pending : List (String × String))
    (lines : List String) :
    itemsFrom t skip start pending lines =
      itemsFrom t 0 (start + skip) pending (lines.drop skip) := by
  induction lines generalizing skip start with
  | nil => simp [itemsFrom]
  | cons line rest ih =>
    cases skip with
    | zero => rfl
    | succ skip =>
      rw [itemsFrom, if_pos (Nat.succ_pos skip), Nat.add_sub_cancel, ih, List.drop_succ_cons,
        Nat.add_assoc, Nat.add_comm 1]

/-- Behind a declaration the reading starts anew. -/
theorem exists_membersIn_after {skip : Nat} {lines : List String} {m : Member}
    (hcode : t.code.length = t.raw.length) (hlines : t.raw.drop start = lines)
    (hm : m ∈ membersIn (itemsFrom t skip start pending lines)) :
    ∃ earlier, membersIn (itemsFrom t skip start pending lines) =
      earlier ++ membersIn (itemsFrom t 0 (m.stop + 1) [] (t.raw.drop (m.stop + 1))) := by
  induction lines generalizing skip start pending with
  | nil => cases hm
  | cons line rest ih =>
    have hline := getElem?_of_drop hlines
    have hrest := drop_succ_of_drop hlines
    cases skip with
    | succ skip =>
      rw [itemsFrom, if_pos (Nat.succ_pos skip)] at hm ⊢
      exact ih hrest hm
    | zero =>
      cases hdeclared : declared? (Text.trim line) with
      | none =>
        rw [membersIn_itemsFrom_gather hdeclared] at hm ⊢
        exact ih hrest hm
      | some found =>
        obtain ⟨shape, symbol⟩ := found
        rw [membersIn_itemsFrom_declares (Shape.declared?_eq_some_iff.mp hdeclared)] at hm ⊢
        rcases List.mem_cons.mp hm with rfl | hm
        · obtain ⟨hle, -⟩ := spanEnd_bounds hcode (List.getElem?_eq_some_iff.mp hline).1
          have hnext : start + 1 + (spanEnd t start - start) = spanEnd t start + 1 := by omega
          refine ⟨[⟨shape, symbol, start, spanEnd t start, pending⟩], ?_⟩
          rw [itemsFrom_skip, ← hrest, List.drop_drop, hnext]
          rfl
        · obtain ⟨earlier, hearlier⟩ := ih hrest hm
          exact ⟨_ :: earlier, by rw [hearlier]; rfl⟩

end Items

/-! ## What decorators leave gathered -/

/-- Lines that are no decorators leave all of what was gathered or nothing. -/
theorem foldl_gather_inert {above : List String} (h : ∀ line ∈ above, decorator? line = none)
    (pending : List (String × String)) :
    above.foldl gather pending = if above.all keeps then pending else [] := by
  induction above generalizing pending with
  | nil => rfl
  | cons line above ih =>
    obtain ⟨hline, habove⟩ := List.forall_mem_cons.mp h
    rw [List.foldl_cons, ih habove, gather, hline, List.all_cons]
    cases keeps line <;> simp

namespace WrittenDecorator

variable (d : WrittenDecorator)

/-- Whether nothing but blank lines and comments follow on the first line of a decorator. -/
def isCompact : Bool := d.continuation.all keeps

/-- The first line of a decorator is read as it. -/
theorem exists_first : ∃ first arguments, d.lines = first :: d.continuation ∧
    decorator? first = some (d.name, arguments) := by
  obtain ⟨first, more, hlines, hopens⟩ :=
    d.opensDecorator_text.exists_lines d.name_ne d.isWord_name
  obtain ⟨m, hm, hname⟩ := exists_find?_decorator d.name_ne d.isWord_name
    (hopens.trim d.name_ne d.isWord_name)
  rw [String.ofList_toList] at hname
  refine ⟨first, m.group 2, ?_, ?_⟩
  · rw [continuation, lines, hlines, List.tail_cons]
  · rw [decorator?, hm, Option.map_some, hname]

theorem isCompact_of_not_mem (h : '\n' ∉ d.text.toList) : d.isCompact = true := by
  have hne : d.text.toList ≠ [] := by
    obtain ⟨tail, htext, -⟩ := d.opensDecorator_text
    rw [htext]
    exact List.cons_ne_nil _ _
  rw [isCompact, continuation, lines, Text.lines, linesOf_of_not_mem h [] hne]
  rfl

/-- No line of a decorator declares anything if none after the first does. -/
theorem declared?_of_mem_lines (h : ∀ line ∈ d.continuation, Inert line) {line : String}
    (hline : line ∈ d.lines) : declared? (Text.trim line) = none := by
  obtain ⟨first, arguments, hlines, hfirst⟩ := d.exists_first
  rw [hlines] at hline
  rcases List.mem_cons.mp hline with rfl | hline
  · obtain ⟨m, hm, -⟩ := Option.map_eq_some_iff.mp hfirst
    exact Shape.declared?_of_decorator hm
  · exact (h line hline).2

theorem map_foldl_gather (h : ∀ line ∈ d.continuation, decorator? line = none)
    (pending : List (String × String)) :
    (d.lines.foldl gather pending).map (·.1) =
      if d.isCompact then pending.map (·.1) ++ [d.name] else [] := by
  obtain ⟨first, arguments, hlines, hfirst⟩ := d.exists_first
  rw [hlines, List.foldl_cons, foldl_gather_inert h, gather, hfirst, isCompact]
  split
  · simp
  · rfl

end WrittenDecorator

/-- Of decorators one after the other those are left that follow on the last one that is not
compact. -/
theorem map_foldl_gather_lines {ds : List WrittenDecorator}
    (h : ∀ d ∈ ds, ∀ line ∈ d.continuation, decorator? line = none) :
    ((ds.flatMap (·.lines)).foldl gather []).map (·.1) =
      (ds.rtakeWhile (·.isCompact)).map (·.name) := by
  induction ds using List.reverseRecOn with
  | nil => rfl
  | append_singleton ds d ih =>
    rw [List.forall_mem_append, List.forall_mem_singleton] at h
    rw [List.flatMap_append, List.foldl_append, List.flatMap_singleton, d.map_foldl_gather h.2,
      ih h.1, List.rtakeWhile_concat]
    split
    · simp
    · rfl

/-! ## Parameters -/

theorem flatMap_filter_of_nil {α β : Type} {items : List α} {p : α → Bool} {g : α → List β}
    (h : ∀ x ∈ items, p x = false → g x = []) : items.flatMap g = (items.filter p).flatMap g := by
  induction items with
  | nil => rfl
  | cons x items ih =>
    obtain ⟨hx, hitems⟩ := List.forall_mem_cons.mp h
    rw [List.flatMap_cons, ih hitems]
    cases hp : p x with
    | false => rw [hx hp, List.filter_cons_of_neg (by simp [hp]), List.nil_append]
    | true => rw [List.filter_cons_of_pos hp, List.flatMap_cons]

/-- The attributes that are stated about a name on a line, in order. -/
def attributesOn (r : Report) (source : String) (line : Nat) : List String :=
  ((r.relationsOf .hasAttribute).filter fun rel => rel.source = source ∧ rel.line? = some line).map
    (·.target)

/-- The relations that the decorators of a declaration state. -/
def attributeRelations (place : Place) (m : Member) : List Relation :=
  m.decorators.map fun d => place.relation m.symbol d.1 .hasAttribute (m.start + 1) []

theorem map_target_attributeRelations (place : Place) (m : Member) :
    (attributeRelations place m).map (·.target) = m.decorators.map (·.1) := by
  simp [attributeRelations]

/-- On a line with another number no attribute of a declaration is stated. -/
theorem filter_attributeRelations (place : Place) (m : Member) (symbol : String) (line : Nat) :
    (attributeRelations place m).filter (fun rel => rel.source = symbol ∧ rel.line? = some line) =
      if m.symbol = symbol ∧ m.start + 1 = line then attributeRelations place m else [] := by
  have hstated : ∀ rel ∈ attributeRelations place m,
      rel.source = m.symbol ∧ rel.line? = some (m.start + 1) :=
    List.forall_mem_map.mpr fun d _ => by simp
  split
  · next h =>
    refine List.filter_eq_self.mpr fun rel hrel => ?_
    obtain ⟨hsource, hline⟩ := hstated rel hrel
    simp [hsource, hline, h]
  · next h =>
    refine List.filter_eq_nil_iff.mpr fun rel hrel => ?_
    obtain ⟨hsource, hline⟩ := hstated rel hrel
    simpa [hsource, hline] using h

section Survey

variable (settings : Settings) (fs : FileSystem) {source : Source}

/-- The attributes of a declaration are the names of its decorators. -/
theorem attributesOn_survey (hlive : source.cancelled = false) {m : Member}
    (hm : m ∈ members (.ofText source.path source.content)) :
    attributesOn (survey settings fs source) m.symbol (m.start + 1) = m.decorators.map (·.1) := by
  have hcode := ofText_code_length source.path source.content
  have hself := (cut_members hcode).filter_start_eq hcode hm
  have hrelations : (survey settings fs source).relationsOf .hasAttribute =
      (members (.ofText source.path source.content)).flatMap
        (attributeRelations (source.place settings fs)) := by
    rw [relationsOf_survey settings fs hlive]
    refine List.flatMap_congr fun a _ => ?_
    rw [filter_memberFacts _ _ a (by decide) (by decide) (by decide), if_pos rfl, if_neg (by decide),
      if_neg (by decide), List.append_nil, List.append_nil]
    exact statements_map_edge _ _ _ _ _ _
  have hother : ∀ a ∈ members (.ofText source.path source.content),
      decide (a.start = m.start) = false →
        (if a.symbol = m.symbol ∧ a.start + 1 = m.start + 1 then
          attributeRelations (source.place settings fs) a else []) = [] := by
    intro a _ ha
    exact if_neg fun h => by simp [Nat.succ.inj h.2] at ha
  rw [attributesOn, hrelations, List.filter_flatMap]
  simp only [filter_attributeRelations]
  rw [flatMap_filter_of_nil hother, hself, List.flatMap_singleton, if_pos ⟨rfl, rfl⟩,
    map_target_attributeRelations]

/-- The elements other than the file are the declarations. -/
theorem members_survey (hlive : source.cancelled = false) :
    (survey settings fs source).members =
      (members (.ofText source.path source.content)).map fun m =>
        (declaration (.ofText source.path source.content) m).toElement source.path
          (source.place settings fs).context := by
  obtain ⟨file, hfile, helements⟩ := exists_elements_survey settings fs hlive
  rw [Report.members, helements, List.filter_cons_of_neg (by simp [hfile]), List.filter_eq_self]
  refine List.forall_mem_map.mpr fun m _ => ?_
  have hkind : (declaration (.ofText source.path source.content) m).kind = m.shape.kind :=
    congrArg Outline.kind (outline_declaration _ m)
  have hfile : m.shape.kind ≠ .file := by cases m.shape <;> decide
  simpa [Declaration.toElement, hkind] using hfile

/-- One declaration starts on a line. -/
theorem filter_members_survey (hlive : source.cancelled = false) {m : Member}
    (hm : m ∈ members (.ofText source.path source.content)) :
    (survey settings fs source).members.filter (·.lineNumber = m.start + 1) =
      [(declaration (.ofText source.path source.content) m).toElement source.path
        (source.place settings fs).context] := by
  have hcode := ofText_code_length source.path source.content
  have hline (a : Member) :
      (declaration (.ofText source.path source.content) a).lineNumber = a.start + 1 :=
    congrArg Outline.firstLine (outline_declaration _ a)
  rw [members_survey settings fs hlive, List.filter_map]
  simp only [Function.comp_def, Declaration.toElement, hline, Nat.add_right_cancel_iff]
  rw [(cut_members hcode).filter_start_eq hcode hm, List.map_singleton]

/-- The tag of a parameter comes from a decorator, and every such decorator gives it. -/
theorem secure_mem_tags_iff {t : Template} {m : Member} (hshape : m.shape = .parameter) :
    "secure" ∈ (declaration t m).tags ↔ "secure" ∈ m.decorators.map (·.1) := by
  constructor
  · intro h
    have hkind : (declaration t m).kind = m.shape.kind :=
      congrArg Outline.kind (outline_declaration t m)
    rw [List.mem_map]
    exact exists_of_mem_tags_declaration (by rw [hkind, hshape]; rfl) h
  · intro h
    unfold declaration
    dsimp only
    rw [tags_addHead (by simp [hshape]), if_pos (by simpa using h)]
    simp [Declaration.addTag, hshape, Shape.keyword, addOnce]

/-- A declaration is read with what is gathered since the declaration before it. -/
theorem mem_members_of_above {t : Template} (hcode : t.code.length = t.raw.length) {n : Nat}
    (hplace : n = 0 ∨ ∃ m ∈ members t, m.stop + 1 = n) {above rest : List String} {line : String}
    (hlines : t.raw.drop n = above ++ line :: rest)
    (habove : ∀ line ∈ above, declared? (Text.trim line) = none) {shape : Shape} {symbol : String}
    (h : shape.Declares symbol line) :
    ⟨shape, symbol, n + above.length, spanEnd t (n + above.length), above.foldl gather []⟩ ∈
      members t := by
  have hfrom : ∃ earlier, members t = earlier ++ membersIn (itemsFrom t 0 n [] (t.raw.drop n)) := by
    rcases hplace with rfl | ⟨m, hm, rfl⟩
    · exact ⟨[], rfl⟩
    · exact exists_membersIn_after hcode List.drop_zero hm
  obtain ⟨earlier, hearlier⟩ := hfrom
  rw [hearlier, hlines, membersIn_itemsFrom_above habove, membersIn_itemsFrom_declares h]
  exact List.mem_append_right _ List.mem_cons_self

/-- Of what is kept up to the last element that fails a test all is kept if none fails it. -/
theorem map_rtakeWhile_eq_iff {α β : Type} {p : α → Bool} {f : α → β} {xs : List α} :
    (xs.rtakeWhile p).map f = xs.map f ↔ ∀ x ∈ xs, p x = true := by
  rw [← List.rtakeWhile_eq_self_iff]
  refine ⟨fun h => (List.rtakeWhile_suffix p xs).eq_of_length ?_, fun h => by rw [h]⟩
  simpa using congrArg List.length h

/-- Decorators above a parameter are attached to it unless one of them goes on over lines that are
neither blank nor comments: such a decorator and all above it are lost. -/
theorem attributes_of_decorated (hlive : source.cancelled = false) {n : Nat}
    (hplace : n = 0 ∨ ∃ o ∈ (survey settings fs source).blocks, o.last = n)
    {between rest : List String} {line symbol : String} {ds : List WrittenDecorator}
    (hlines : (Text.lines source.content).drop n =
      between ++ ds.flatMap (·.lines) ++ line :: rest)
    (hbetween : ∀ other ∈ between, Inert other)
    (hdecorators : ∀ d ∈ ds, ∀ other ∈ d.continuation, keeps other = false → Inert other)
    (hparameter : Shape.parameter.Declares symbol line) :
    ∃ number e, number = n + between.length + (ds.flatMap (·.lines)).length + 1 ∧
      (survey settings fs source).members.filter (·.lineNumber = number) = [e] ∧
      e.name = symbol ∧ e.kind = .property ∧
      attributesOn (survey settings fs source) symbol number =
        (ds.rtakeWhile (·.isCompact)).map (·.name) ∧
      ("secure" ∈ e.tags ↔ "secure" ∈ (ds.rtakeWhile (·.isCompact)).map (·.name)) ∧
      (attributesOn (survey settings fs source) symbol number = ds.map (·.name) ↔
        ∀ d ∈ ds, d.isCompact = true) ∧
      ((∀ d ∈ ds, '\n' ∉ d.text.toList) →
        attributesOn (survey settings fs source) symbol number = ds.map (·.name)) := by
  have hcode := ofText_code_length source.path source.content
  have hinert : ∀ d ∈ ds, ∀ other ∈ d.continuation, Inert other := by
    intro d hd other hother
    cases hkeeps : keeps other with
    | true => exact inert_of_keeps hkeeps
    | false => exact hdecorators d hd other hother hkeeps
  have habove : ∀ other ∈ between ++ ds.flatMap (·.lines), declared? (Text.trim other) = none := by
    refine List.forall_mem_append.mpr ⟨fun other hother => (hbetween other hother).2, ?_⟩
    intro other hother
    obtain ⟨d, hd, hother⟩ := List.mem_flatMap.mp hother
    exact d.declared?_of_mem_lines (hinert d hd) hother
  have hstart : n = 0 ∨ ∃ m ∈ members (.ofText source.path source.content), m.stop + 1 = n := by
    refine hplace.imp_right ?_
    rintro ⟨o, ho, rfl⟩
    rw [blocks_survey settings fs source hlive] at ho
    obtain ⟨m, hm, rfl⟩ := List.mem_map.mp ho
    exact ⟨m, hm, (last_outlineOf _ m).symm⟩
  have hm := mem_members_of_above hcode hstart hlines habove hparameter
  set m : Member := ⟨.parameter, symbol, _, _, _⟩
  have hnames : m.decorators.map (·.1) = (ds.rtakeWhile (·.isCompact)).map (·.name) := by
    have hnone : between.foldl gather [] = [] := by
      rw [foldl_gather_inert fun other hother => (hbetween other hother).1, ite_self]
    change ((between ++ ds.flatMap (·.lines)).foldl gather []).map (·.1) = _
    rw [List.foldl_append, hnone, map_foldl_gather_lines fun d hd other hother =>
      (hinert d hd other hother).1]
  have hattributes : attributesOn (survey settings fs source) symbol (m.start + 1) =
      (ds.rtakeWhile (·.isCompact)).map (·.name) :=
    (attributesOn_survey settings fs hlive hm).trans hnames
  have hall : attributesOn (survey settings fs source) symbol (m.start + 1) = ds.map (·.name) ↔
      ∀ d ∈ ds, d.isCompact = true := by
    rw [hattributes, map_rtakeWhile_eq_iff]
  refine ⟨m.start + 1, (declaration (.ofText source.path source.content) m).toElement source.path
    (source.place settings fs).context, ?_, filter_members_survey settings fs hlive hm, ?_, ?_,
    hattributes, ?_, hall, ?_⟩
  · simp only [m, List.length_append, Nat.add_assoc]
  · exact congrArg Outline.name (outline_declaration _ m)
  · exact congrArg Outline.kind (outline_declaration _ m)
  · rw [← hnames]
    exact secure_mem_tags_iff rfl
  · exact fun hone => hall.mpr fun d hd => d.isCompact_of_not_mem (hone d hd)

end Survey

/-! ## A list of allowed values -/

/-- A parameter with three decorators, of which the second lists values on lines of their own. -/
def modeSource : Source where
  path := "main.bicep"
  content := "var region = 'west'\n\n" ++
    "@secure()\n@allowed([\n  'a'\n])\n@description('Mode')\nparam mode string\n"

def modeDecorators : List WrittenDecorator :=
  [⟨"secure", some "", by decide, List.all_eq_true.mp (by decide +kernel)⟩,
    ⟨"allowed", some "[\n  'a'\n]", by decide, List.all_eq_true.mp (by decide +kernel)⟩,
    ⟨"description", some "'Mode'", by decide, List.all_eq_true.mp (by decide +kernel)⟩]

/-- Only the third decorator is attached, and the parameter is not tagged as secure. -/
theorem decorators_lost :
    attributesOn (survey {} {} modeSource) "mode" 8 = ["description"] ∧
      modeDecorators.map (·.name) = ["secure", "allowed", "description"] ∧
      (survey {} {} modeSource).members.map (fun e => (e.name, e.lineNumber, e.tags)) =
        [("region", 1, ["var"]), ("mode", 8, ["param"])] := by
  decide +kernel

/-- The parameter stands below a variable and a blank line. -/
theorem attributes_of_decorated_mode :
    (∃ o ∈ (survey {} {} modeSource).blocks, o.last = 1) ∧
      (Text.lines modeSource.content).drop 1 =
        [""] ++ modeDecorators.flatMap (·.lines) ++ "param mode string" :: [] ∧
      ∃ number e, number = 8 ∧
        (survey {} {} modeSource).members.filter (·.lineNumber = number) = [e] ∧
        e.name = "mode" ∧ e.kind = .property ∧
        attributesOn (survey {} {} modeSource) "mode" number =
          (modeDecorators.rtakeWhile (·.isCompact)).map (·.name) ∧
        ("secure" ∈ e.tags ↔ "secure" ∈ (modeDecorators.rtakeWhile (·.isCompact)).map (·.name)) := by
  have hplace : ∃ o ∈ (survey {} {} modeSource).blocks, o.last = 1 := by decide +kernel
  have hlines : (Text.lines modeSource.content).drop 1 =
      [""] ++ modeDecorators.flatMap (·.lines) ++ "param mode string" :: [] := by decide +kernel
  have hbetween : ∀ other ∈ [""], Inert other :=
    List.forall_mem_singleton.mpr (inert_of_keeps (by decide))
  have hdecorators : ∀ d ∈ modeDecorators, ∀ other ∈ d.continuation, keeps other = false →
      Inert other := by
    unfold Inert
    decide +kernel
  have hparameter : Shape.parameter.Declares "mode" "param mode string" :=
    Shape.declared?_eq_some_iff.mp (by decide +kernel)
  obtain ⟨number, e, hnumber, hmembers, hname, hkind, hattributes, htag, -, -⟩ :=
    attributes_of_decorated {} {} rfl (.inr hplace) hlines hbetween hdecorators hparameter
  have hlength : (modeDecorators.flatMap (·.lines)).length = 5 := by decide +kernel
  rw [hlength] at hnumber
  exact ⟨hplace, hlines, number, e, hnumber, hmembers, hname, hkind, hattributes, htag⟩

end CodeSurvey.Bicep
