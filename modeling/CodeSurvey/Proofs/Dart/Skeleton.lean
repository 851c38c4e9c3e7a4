import CodeSurvey.Proofs.Dart.Heads
import CodeSurvey.Proofs.Dart.Nesting
import CodeSurvey.Proofs.VisualBasic.Skeleton

/-!
# Skeletons of Dart sources

A skeleton is a list of classes and methods, printed with one line for the head and one for the
closing brace of each; a class holds fields and methods, and further classes. Reading the printed
lines gives back one element for each declaration, with its dotted name and its first and last line.
In a class the fields come first. The proof follows the skeleton: the braces tell where a block ends,
so that the members of a range of lines are those of the skeleton, and what is inside of a class is a
skeleton again.
-/

namespace CodeSurvey.Dart

open Code (Listing BlockState)
open VisualBasic (Margin dottedName dottedName_concat drop_of_drop)

/-! ## Skeletons -/

/-- A line in the body of a method without braces. -/
structure BodyLine where
  text : String
  braceless : '\x7b' ∉ text.toList ∧ '\x7d' ∉ text.toList

/-- Declarations that follow one another, in a class or not. Fields stand in classes only. The
margins are the indentations of the head and of the closing brace. -/
inductive Skeleton : Bool → Type where
  | done {inClass : Bool} : Skeleton inClass
  | type {inClass : Bool} (head foot : Margin) (name : Name) (inner : Skeleton true)
      (rest : Skeleton inClass) : Skeleton inClass
  | field (margin : Margin) (name : Name) (rest : Skeleton true) : Skeleton true
  | method {inClass : Bool} (head foot : Margin) (name : Name) (body : List BodyLine)
      (rest : Skeleton inClass) : Skeleton inClass

def blockLines (head foot : Margin) (headText : String) (inner : List String) : List String :=
  (head.text ++ headText) :: (inner ++ [foot.text ++ "\x7d"])

theorem length_blockLines (head foot : Margin) (headText : String) (inner : List String) :
    (blockLines head foot headText inner).length = inner.length + 2 := by
  simp [blockLines]

section Lines

variable {lines inner tail : List String} {start : Nat}

theorem drop_line {line : String} (h : lines.drop start = line :: tail) :
    lines.drop (start + 1) = tail := by
  rw [← List.drop_drop, h, List.drop_one, List.tail_cons]

theorem drop_block {head foot : Margin} {headText : String}
    (h : lines.drop start = blockLines head foot headText inner ++ tail) :
    lines.drop (start + (inner.length + 2)) = tail := by
  rw [← length_blockLines head foot headText inner]
  exact drop_of_drop h

theorem drop_inside {head foot : Margin} {headText : String}
    (h : lines.drop start = blockLines head foot headText inner ++ tail) :
    lines.drop (start + 1) = inner ++ ((foot.text ++ "\x7d") :: tail) := by
  rw [blockLines, List.cons_append, List.append_assoc] at h
  exact drop_line h

end Lines

/-- What a reader looks for first: kind, name, first and last line. -/
structure Mark where
  kind : ElementKind
  name : String
  firstLine : Nat
  lastLine : Nat
  deriving Repr, DecidableEq

def markOf (o : Outline) : Mark := ⟨o.kind, o.name, o.firstLine, o.last⟩

namespace Skeleton

variable {inClass : Bool}

def lines {inClass : Bool} : Skeleton inClass → List String
  | done => []
  | type head foot name inner rest =>
    blockLines head foot (Form.type.head name) inner.lines ++ rest.lines
  | field margin name rest => (margin.text ++ Form.field.head name) :: rest.lines
  | method head foot name body rest =>
    blockLines head foot (Form.method.head name) (body.map BodyLine.text) ++ rest.lines

/-- The marks of the fields that are not in a further class, where `line` lines stand before. -/
def fieldMarks {inClass : Bool} (names : List String) (line : Nat) : Skeleton inClass → List Mark
  | done => []
  | type _ _ _ inner rest => rest.fieldMarks names (line + (inner.lines.length + 2))
  | field _ name rest =>
    ⟨.property, dottedName (names ++ [name.text]), line + 1, line + 1⟩ ::
      rest.fieldMarks names (line + 1)
  | method _ _ _ body rest => rest.fieldMarks names (line + (body.length + 2))

/-- The marks of the methods and classes, each class with those of what is inside: the fields first,
and then the rest. -/
def otherMarks {inClass : Bool} (names : List String) (line : Nat) : Skeleton inClass → List Mark
  | done => []
  | type _ _ name inner rest =>
    ⟨.type, dottedName (names ++ [name.text]), line + 1, line + (inner.lines.length + 2)⟩ ::
      (inner.fieldMarks (names ++ [name.text]) (line + 1) ++
        inner.otherMarks (names ++ [name.text]) (line + 1)) ++
      rest.otherMarks names (line + (inner.lines.length + 2))
  | field _ _ rest => rest.otherMarks names (line + 1)
  | method _ _ name body rest =>
    ⟨.method, dottedName (names ++ [name.text]), line + 1, line + (body.length + 2)⟩ ::
      rest.otherMarks names (line + (body.length + 2))

def marks (names : List String) (line : Nat) (s : Skeleton inClass) : List Mark :=
  s.fieldMarks names line ++ s.otherMarks names line

/-- No name is taken for something else: no class is called `on`, no name of a method goes on after
`operator`, and the path is not the dotted name of a class that something is in. -/
def Legible {inClass : Bool} (path : String) (names : List String) : Skeleton inClass → Prop
  | done => True
  | type _ _ name inner rest =>
    name.text ≠ "on" ∧ (inner.lines = [] ∨ dottedName (names ++ [name.text]) ≠ path) ∧
      inner.Legible path (names ++ [name.text]) ∧ rest.Legible path names
  | field _ _ rest => rest.Legible path names
  | method _ _ name _ rest => ¬ name.ContinuesOperator ∧ rest.Legible path names

instance decidableLegible {inClass : Bool} (path : String) (names : List String) :
    (s : Skeleton inClass) → Decidable (s.Legible path names)
  | done => .isTrue trivial
  | type _ _ name inner rest =>
    have := inner.decidableLegible path (names ++ [name.text])
    have := rest.decidableLegible path names
    inferInstanceAs (Decidable (_ ∧ (inner.lines = [] ∨ _) ∧ _ ∧ _))
  | field _ _ rest => rest.decidableLegible path names
  | method _ _ name _ rest =>
    have := rest.decidableLegible path names
    inferInstanceAs (Decidable (¬ name.ContinuesOperator ∧ _))

/-- The members that a range of lines is cut into. -/
def members {inClass : Bool} (line : Nat) : Skeleton inClass → List Member
  | done => []
  | type _ _ _ inner rest =>
    ⟨.type, line, line + (inner.lines.length + 1), []⟩ ::
      rest.members (line + (inner.lines.length + 2))
  | field _ _ rest => ⟨.field, line, line, []⟩ :: rest.members (line + 1)
  | method _ _ _ body rest =>
    ⟨.method, line, line + (body.length + 1), []⟩ :: rest.members (line + (body.length + 2))

end Skeleton

/-! ## Where blocks end -/

section Blocks

/-- Characters without braces leave a block as it is, if it is open or no semicolon ends it. -/
theorem read_plain {cs : List Char} (h : '\x7b' ∉ cs ∧ '\x7d' ∉ cs) (ds : List Char)
    {b : BlockState} (hb : b.opened = true ∨ ';' ∉ cs) : b.read (cs ++ ds) = b.read ds := by
  induction cs with
  | nil => rfl
  | cons c cs ih =>
    simp only [List.mem_cons, not_or] at h hb
    have hrest := ih ⟨h.1.2, h.2.2⟩ (hb.imp_right And.right)
    by_cases hsemicolon : c = ';'
    · have hopened : b.opened = true := hb.resolve_right fun hb => hb.1 hsemicolon.symm
      rw [hsemicolon, List.cons_append, BlockState.read, hopened]
      exact hrest
    · rw [List.cons_append, BlockState.read]
      · exact hrest
      · exact fun hc => h.1.1 hc.symm
      · exact fun hc => h.2.1 hc.symm
      · exact hsemicolon

theorem read_of_braceless {cs : List Char} (h : '\x7b' ∉ cs ∧ '\x7d' ∉ cs) (depth : Int) :
    BlockState.read ⟨depth, true⟩ cs = some ⟨depth, true⟩ := by
  have hread := read_plain h [] (b := ⟨depth, true⟩) (.inl rfl)
  rwa [List.append_nil] at hread

/-- Before the end of a head stand neither braces nor semicolons. -/
theorem Form.exists_head_eq (f : Form) (name : Name) :
    ∃ cs, (f.head name).toList = cs ++ [if f = .field then ';' else '\x7b'] ∧
      ∀ c ∈ ['\x7b', '\x7d', ';'], c ∉ cs := by
  obtain ⟨stem, hstem, hbare⟩ : ∃ stem,
      f.tail.toList = stem ++ [if f = .field then ';' else '\x7b'] ∧
        ∀ c ∈ ['\x7b', '\x7d', ';'], c ∉ stem := by
    cases f
    · exact ⟨[' '], rfl, by simp⟩
    · exact ⟨[], rfl, by simp⟩
    · exact ⟨['(', ')', ' '], rfl, by simp⟩
  refine ⟨f.word.toList ++ ' ' :: (name.text.toList ++ stem), by simp [f.toList_head, hstem], ?_⟩
  have hsubset : ['\x7b', '\x7d', ';'] ⊆ ['"', '\'', '/', '(', '.', ';', '\x7b', '\x7d'] := by decide
  intro c hc hmem
  rw [List.mem_append, List.mem_cons, List.mem_append] at hmem
  rcases hmem with hmem | rfl | hmem | hmem
  · exact (f.bare_word hmem).2 (hsubset hc)
  · exact absurd hc (by decide)
  · exact (name.bare_of_mem hmem).2 (hsubset hc)
  · exact hbare c hc hmem

/-- The head of a block opens a brace. -/
theorem Form.read_head {f : Form} (hf : f ≠ .field) (name : Name) (b : BlockState) :
    b.read (f.head name).toList = some ⟨b.depth + 1, true⟩ := by
  obtain ⟨cs, hcs, hbare⟩ := f.exists_head_eq name
  rw [hcs, read_plain ⟨hbare _ (by decide), hbare _ (by decide)⟩ _ (.inr (hbare _ (by decide))),
    if_neg hf]
  rfl

/-- The head of a field ends at once where no block is open. -/
theorem Form.read_field (name : Name) : BlockState.read {} (Form.field.head name).toList = none := by
  obtain ⟨cs, hcs, hbare⟩ := Form.field.exists_head_eq name
  rw [hcs, read_plain ⟨hbare _ (by decide), hbare _ (by decide)⟩ _ (.inr (hbare _ (by decide)))]
  rfl

theorem Form.braceless_field (name : Name) :
    '\x7b' ∉ (Form.field.head name).toList ∧ '\x7d' ∉ (Form.field.head name).toList := by
  obtain ⟨cs, hcs, hbare⟩ := Form.field.exists_head_eq name
  rw [hcs]
  constructor
  · simpa using hbare _ (by decide)
  · simpa using hbare _ (by decide)

variable {last i : Nat} {rest : List String}

/-- A line after which braces are still open. -/
theorem blockEndFrom_cons {line : String} {b : BlockState} {depth : Int}
    (hread : b.read line.toList = some ⟨depth, true⟩) (hdepth : 0 < depth) :
    Code.blockEndFrom last b (line :: rest) i =
      Code.blockEndFrom last ⟨depth, true⟩ rest (i + 1) := by
  have hopen : ¬ depth ≤ 0 := not_le.mpr hdepth
  simp [Code.blockEndFrom, hread, hopen]

/-- Lines of code after which the same braces are open as before. -/
def Passes (lines : List String) : Prop :=
  ∀ (last i : Nat) (depth : Int) (rest : List String), 0 < depth →
    Code.blockEndFrom last ⟨depth, true⟩ (lines ++ rest) i =
      Code.blockEndFrom last ⟨depth, true⟩ rest (i + lines.length)

namespace Passes

variable {lines more : List String}

theorem nil : Passes [] := fun _ _ _ _ _ => rfl

theorem append (h : Passes lines) (hmore : Passes more) : Passes (lines ++ more) := by
  intro last i depth rest hdepth
  rw [List.append_assoc, h _ _ _ _ hdepth, hmore _ _ _ _ hdepth, List.length_append, Nat.add_assoc]

theorem cons {line : String} (hline : '\x7b' ∉ line.toList ∧ '\x7d' ∉ line.toList)
    (h : Passes lines) : Passes (line :: lines) := by
  intro last i depth rest hdepth
  rw [List.cons_append, blockEndFrom_cons (read_of_braceless hline depth) hdepth,
    h _ _ _ _ hdepth, List.length_cons]
  congr 1
  omega

/-- A block with what is inside of it. -/
theorem block {f : Form} (hf : f ≠ .field) (name : Name) (h : Passes lines) :
    Passes (f.head name :: (lines ++ ["\x7d"])) := by
  intro last i depth rest hdepth
  rw [List.cons_append, List.append_assoc,
    blockEndFrom_cons (Form.read_head hf name ⟨depth, true⟩) (Int.lt_add_one_of_le hdepth.le),
    h _ _ _ _ (Int.lt_add_one_of_le hdepth.le), List.singleton_append]
  have hclose : BlockState.read ⟨depth + 1, true⟩ "\x7d".toList = some ⟨depth, true⟩ := by
    simp [BlockState.read]
  rw [blockEndFrom_cons hclose hdepth]
  congr 1
  simp
  omega

end Passes

/-- A block ends with the brace after what is inside of it. -/
theorem blockEndFrom_block {lines : List String} {f : Form} (hf : f ≠ .field) (name : Name)
    (h : Passes lines) :
    Code.blockEndFrom last {} (f.head name :: (lines ++ "\x7d" :: rest)) i =
      i + (lines.length + 1) := by
  rw [blockEndFrom_cons (Form.read_head hf name {}) (by decide), h _ _ _ _ (by decide)]
  have hclose : BlockState.read ⟨0 + 1, true⟩ "\x7d".toList = some ⟨0, true⟩ := by decide
  simp only [Code.blockEndFrom, hclose]
  simp
  omega

/-! ### Code of printed lines -/

/-- The code of a line has no characters but those of the line. -/
theorem mem_of_mem_codeOf {line : String} {c : Char} (h : c ∈ (codeOf line).toList) :
    c ∈ line.toList := by
  have htrim : c ∈ (Code.codeLine "//" line).toList := by
    rw [codeOf, Text.trim, Text.toList_trimWhere] at h
    exact (List.dropWhile_sublist _).subset ((List.rdropWhile_prefix _ _).subset h)
  rw [Code.codeLine, String.toList_ofList] at htrim
  exact (Code.codeChars_sublist _ _ _).subset htrim

theorem BodyLine.braceless_codeOf (b : BodyLine) :
    '\x7b' ∉ (codeOf b.text).toList ∧ '\x7d' ∉ (codeOf b.text).toList :=
  ⟨fun h => b.braceless.1 (mem_of_mem_codeOf h), fun h => b.braceless.2 (mem_of_mem_codeOf h)⟩

theorem codeOf_head (f : Form) (name : Name) (margin : Margin) :
    codeOf (margin.text ++ f.head name) = f.head name :=
  codeOf_indented margin (f.plain_head name)

theorem codeOf_foot (margin : Margin) : codeOf (margin.text ++ "\x7d") = "\x7d" :=
  codeOf_indented margin
    ⟨by rintro c ⟨⟩; decide, by rintro c ⟨⟩; decide, by simp⟩

theorem map_codeOf_blockLines (f : Form) (name : Name) (head foot : Margin) (inner : List String) :
    (blockLines head foot (f.head name) inner).map codeOf =
      f.head name :: (inner.map codeOf ++ ["\x7d"]) := by
  simp [blockLines, codeOf_head, codeOf_foot]

theorem passes_body (body : List BodyLine) : Passes ((body.map BodyLine.text).map codeOf) := by
  induction body with
  | nil => exact Passes.nil
  | cons b body ih => exact Passes.cons b.braceless_codeOf ih

/-- All braces that a skeleton opens are closed. -/
theorem Skeleton.passes {inClass : Bool} (skeleton : Skeleton inClass) :
    Passes (skeleton.lines.map codeOf) := by
  induction skeleton with
  | done => exact Passes.nil
  | type head foot name inner rest ihInner ihRest =>
    rw [lines, List.map_append, map_codeOf_blockLines]
    exact (Passes.block (by decide) name ihInner).append ihRest
  | field margin name rest ihRest =>
    rw [lines, List.map_cons, codeOf_head]
    exact Passes.cons (Form.braceless_field name) ihRest
  | method head foot name body rest ihRest =>
    rw [lines, List.map_append, map_codeOf_blockLines]
    exact (Passes.block (by decide) name (passes_body body)).append ihRest

end Blocks

/-! ## Cutting the lines of a skeleton -/

section Cutting

variable {l : Listing} {start stop : Nat} {tail : List String} {f : Form} {name : Name}
  {margin : Margin}

theorem codeAt_head (hcode : l.code = l.raw.map codeOf)
    (hraw : l.raw.drop start = (margin.text ++ f.head name) :: tail) :
    l.codeAt start = f.head name := by
  simp [Listing.codeAt, hcode, getElem?_of_drop hraw, codeOf_head]

theorem declarationText_head (hcode : l.code = l.raw.map codeOf)
    (hraw : l.raw.drop start = (margin.text ++ f.head name) :: tail) :
    declarationText l start = f.head name := by
  rw [declarationText, codeAt_head hcode hraw, takeAnnotations_head]

variable {type : Option String}

/-- A head is cut off with the lines up to the end of its block. -/
theorem members_head (hcode : l.code = l.raw.map codeOf)
    (hraw : l.raw.drop start = (margin.text ++ f.head name) :: tail)
    (htype : ∀ owner, type = some owner → ' ' ∉ owner.toList)
    (hfield : f = .field → type.isSome = true) (hname : f = .method → ¬ name.ContinuesOperator)
    {last : Nat} (hend : Code.blockEnd l.code start = last) (hstart : start ≤ last)
    (hlast : last < stop) :
    members l type stop start [] =
      ⟨f.shape, start, last, []⟩ :: members l type stop (last + 1) [] := by
  have hrawAt : l.rawAt start = margin.text ++ f.head name := by
    simp [Listing.rawAt, getElem?_of_drop hraw]
  have hnonempty : (Text.trim (f.head name)).isEmpty = false := by
    have htrim := trim_indented ⟨"", rfl⟩ (f.plain_head name)
    rw [String.empty_append] at htrim
    rw [htrim, String.isEmpty_eq_false_iff]
    intro hempty
    have hchars := f.toList_head name
    rw [hempty] at hchars
    exact absurd hchars (by simp)
  have hlastLine : lastLine l (some f.shape) start stop = last := by
    have hkind : lastLine l (some f.shape) start stop =
        max (min (Code.blockEnd l.code start) (stop - 1)) start := by cases f <;> rfl
    rw [hkind, hend]
    omega
  have hcut : cut l type stop start [] = ⟨some ⟨f.shape, start, last, []⟩, last + 1, []⟩ := by
    simp only [cut, codeAt_head hcode hraw, takeAnnotations_head, hnonempty, hrawAt,
      shapeOf?_head f margin htype hfield hname, cutAt, hlastLine]
    rfl
  rw [members, if_pos (hstart.trans_lt hlast), hcut]
  rfl

/-- A block ends with its foot. -/
theorem blockEnd_block (hf : f ≠ .field) (hcode : l.code = l.raw.map codeOf) {head foot : Margin}
    {inner : List String} (hinner : Passes (inner.map codeOf))
    (hraw : l.raw.drop start = blockLines head foot (f.head name) inner ++ tail) :
    Code.blockEnd l.code start = start + (inner.length + 1) := by
  have hdrop : l.code.drop start =
      f.head name :: (inner.map codeOf ++ "\x7d" :: tail.map codeOf) := by
    rw [hcode, ← List.map_drop, hraw, List.map_append, map_codeOf_blockLines]
    simp
  rw [Code.blockEnd, hdrop, blockEndFrom_block hf name hinner, List.length_map]

/-- A field ends on its own line. -/
theorem blockEnd_field (hcode : l.code = l.raw.map codeOf)
    (hraw : l.raw.drop start = (margin.text ++ Form.field.head name) :: tail) :
    Code.blockEnd l.code start = start := by
  have hdrop : l.code.drop start = Form.field.head name :: tail.map codeOf := by
    rw [hcode, ← List.map_drop, hraw, List.map_cons, codeOf_head]
  rw [Code.blockEnd, hdrop, Code.blockEndFrom, Form.read_field]

/-- The lines of a skeleton are cut into its declarations. -/
theorem members_skeleton {inClass : Bool} (hcode : l.code = l.raw.map codeOf)
    (htype : ∀ owner, type = some owner → ' ' ∉ owner.toList)
    (hclass : inClass = true → type.isSome = true) (skeleton : Skeleton inClass)
    {path : String} {names : List String} (hlegible : skeleton.Legible path names)
    (hraw : l.raw.drop start = skeleton.lines ++ tail)
    (hstop : stop = start + skeleton.lines.length) :
    members l type stop start [] = skeleton.members start := by
  induction skeleton generalizing start tail names with
  | done =>
    rw [members, if_neg (by simp [hstop, Skeleton.lines])]
    rfl
  | type head foot name inner rest ihInner ihRest =>
    rw [Skeleton.lines, List.append_assoc] at hraw
    rw [Skeleton.lines, List.length_append, length_blockLines] at hstop
    have hend := blockEnd_block (by decide) hcode inner.passes hraw
    rw [members_head hcode hraw htype nofun nofun hend (by omega) (by omega),
      Nat.add_assoc, ihRest hclass hlegible.2.2.2 (drop_block hraw) (by omega)]
    rfl
  | field margin name rest ihRest =>
    rw [Skeleton.lines, List.cons_append] at hraw
    rw [Skeleton.lines, List.length_cons] at hstop
    rw [members_head hcode hraw htype (fun _ => hclass rfl) nofun (blockEnd_field hcode hraw)
      le_rfl (by omega), ihRest hclass hlegible (drop_line hraw) (by omega)]
    rfl
  | method head foot name body rest ihRest =>
    rw [Skeleton.lines, List.append_assoc] at hraw
    rw [Skeleton.lines, List.length_append, length_blockLines] at hstop
    have hend := blockEnd_block (by decide) hcode (passes_body body) hraw
    have hnext := drop_block hraw
    rw [List.length_map] at hend hstop hnext
    rw [members_head hcode hraw htype nofun (fun _ => hlegible.1) hend (by omega) (by omega),
      Nat.add_assoc, ihRest hclass hlegible.2 hnext (by omega)]
    rfl

end Cutting

/-! ## What the declarations of a skeleton state -/

section Stating

variable {t : Document} {owner : String} {names : List String} {m : Member} {name : Name}

/-- An owner whose declarations are named after the classes around them. -/
structure Owns (t : Document) (owner : String) (names : List String) (inClass : Bool) : Prop where
  qualify_eq : ∀ n, qualify t.path owner n = dottedName (names ++ [n])
  bare : ∀ c, classOf? t owner = some c → ' ' ∉ c.toList
  isSome : inClass = true → (classOf? t owner).isSome = true

/-- The file owns what is in no class. -/
theorem Owns.file (t : Document) : Owns t t.path [] false where
  qualify_eq n := by simp [qualify, dottedName]
  bare c hc := by simp [classOf?] at hc
  isSome := nofun

theorem afterLast_concat (names : List String) (name : Name) :
    Text.afterLast '.' (dottedName (names ++ [name.text])) = name.text := by
  obtain ⟨before, hbefore, hdot⟩ : ∃ before,
      (dottedName (names ++ [name.text])).toList.reverse = name.text.toList.reverse ++ before ∧
        before.takeWhile (· != '.') = [] := by
    by_cases hnames : names = []
    · exact ⟨[], by simp [hnames, dottedName], rfl⟩
    · refine ⟨'.' :: (dottedName names).toList.reverse, ?_, rfl⟩
      simp [dottedName_concat name.text hnames]
  have hplain : ∀ c ∈ name.text.toList.reverse, (c != '.') = true := by
    intro c hc
    rw [bne_iff_ne]
    rintro rfl
    exact (name.bare_of_mem (List.mem_reverse.mp hc)).2 (by decide)
  rw [Text.afterLast, hbefore, List.takeWhile_append_of_pos hplain, hdot, List.append_nil,
    List.reverse_reverse, String.ofList_toList]

/-- A class owns what is in it, unless it is taken for the file. -/
theorem Owns.type (names : List String) (name : Name)
    (hpath : dottedName (names ++ [name.text]) ≠ t.path) :
    Owns t (dottedName (names ++ [name.text])) (names ++ [name.text]) true where
  qualify_eq n := by rw [qualify, if_neg hpath, dottedName_concat n (by simp)]
  bare c hc := by
    rw [classOf?, if_neg hpath, afterLast_concat, Option.some.injEq] at hc
    subst hc
    intro hblank
    exact absurd (name.bare_of_mem hblank).1 (by decide)
  isSome _ := by rw [classOf?, if_neg hpath]; rfl

def marksOf (stated : List Fact) : List Mark := (holdings stated).map (markOf ·.outline)

theorem marksOf_append (xs ys : List Fact) : marksOf (xs ++ ys) = marksOf xs ++ marksOf ys := by
  rw [marksOf, holdings_append, List.map_append]
  rfl

theorem Declares.marksOf_eq {kind : ElementKind} {plain : String} {stated : List Fact}
    (h : Declares t owner m kind plain stated) :
    marksOf stated = [⟨kind, plain, m.start + 1, m.stop + 1⟩] := by
  rw [marksOf, h.holdings_eq]
  rfl

variable {inClass : Bool}

theorem marksOf_fieldFacts (howns : Owns t owner names inClass)
    (htext : declarationText t.listing m.start = Form.field.head name) :
    marksOf (fieldFacts t owner m).1 =
      [⟨.property, dottedName (names ++ [name.text]), m.start + 1, m.stop + 1⟩] := by
  obtain ⟨head, hhead, hname⟩ := find?_fieldHead_head name
  have hdeclares : Declares t owner m .property (qualify t.path owner (head.group 3))
      (fieldFacts t owner m).1 := by
    simp only [fieldFacts, htext, hhead]
    cases head.group? 2 with
    | none =>
      rw [← List.append_nil (declare _ _ _ _ _ _)]
      exact declares_declare AllFacts.nil
    | some type => exact declares_declare (by simp)
  rw [hdeclares.marksOf_eq, hname, howns.qualify_eq]

theorem marksOf_methodFacts (howns : Owns t owner names inClass) (fields : FieldTypes)
    (hname : ¬ name.ContinuesOperator)
    (htext : declarationText t.listing m.start = Form.method.head name) :
    marksOf (methodFacts t owner fields false m) =
      [⟨.method, dottedName (names ++ [name.text]), m.start + 1, m.stop + 1⟩] := by
  obtain ⟨head, hhead, -, hplain⟩ := find?_methodHead_method hname
  have hdeclares : Declares t owner m .method (qualify t.path owner (head.group 3))
      (methodFacts t owner fields false m) := by
    simp only [methodFacts, htext, methodParts?, hhead, List.append_assoc]
    exact declares_declare (by simp)
  rw [hdeclares.marksOf_eq, hplain, howns.qualify_eq]

theorem exists_typeHead (howns : Owns t owner names inClass) (hname : name.text ≠ "on")
    (htext : declarationText t.listing m.start = Form.type.head name) :
    ∃ head, typeHead.find? (declarationText t.listing m.start) = some head ∧
      typeName t owner head = dottedName (names ++ [name.text]) ∧
      marksOf (headFacts t owner m head) =
        [⟨.type, dottedName (names ++ [name.text]), m.start + 1, m.stop + 1⟩] := by
  obtain ⟨head, hhead, hmodifiers, hplain⟩ := find?_typeHead_type name
  have hempty : name.text ≠ "" := by
    intro hempty
    exact name.ne_nil (by rw [hempty]; rfl)
  have htypeName : typeName t owner head = dottedName (names ++ [name.text]) := by
    rw [typeName, hplain, ← howns.qualify_eq]
    simp [hempty, hname]
  have hdeclares : Declares t owner m
      (if (Text.words (head.group 1)).contains "interface" then .interface else .type)
      (typeName t owner head) (headFacts t owner m head) := declares_declare (by simp)
  refine ⟨head, htext ▸ hhead, htypeName, ?_⟩
  rw [hdeclares.marksOf_eq, hmodifiers, htypeName]
  rfl

variable {start : Nat} {tail : List String}

/-- The fields of a skeleton. -/
theorem marks_fields (hcode : t.listing.code = t.listing.raw.map codeOf)
    (howns : Owns t owner names inClass) (skeleton : Skeleton inClass)
    (hraw : t.listing.raw.drop start = skeleton.lines ++ tail) :
    marksOf (((skeleton.members start).filter (·.shape = .field)).flatMap
      fun m => (fieldFacts t owner m).1) = skeleton.fieldMarks names start := by
  induction skeleton generalizing start tail with
  | done => rfl
  | type head foot name inner rest ihInner ihRest =>
    rw [Skeleton.lines, List.append_assoc] at hraw
    exact ihRest howns (drop_block hraw)
  | field margin name rest ihRest =>
    rw [Skeleton.lines, List.cons_append] at hraw
    have hfields : (Skeleton.members start (.field margin name rest)).filter (·.shape = .field) =
        ⟨.field, start, start, []⟩ ::
          (rest.members (start + 1)).filter (·.shape = .field) := rfl
    rw [hfields, List.flatMap_cons, marksOf_append, ihRest howns (drop_line hraw),
      marksOf_fieldFacts howns (declarationText_head hcode hraw)]
    rfl
  | method head foot name body rest ihRest =>
    rw [Skeleton.lines, List.append_assoc] at hraw
    have hnext := drop_block hraw
    rw [List.length_map] at hnext
    exact ihRest howns hnext

/-- A range with the lines of a skeleton states its fields first, and then the rest. -/
theorem marks_range (hcode : t.listing.code = t.listing.raw.map codeOf)
    (howns : Owns t owner names inClass) {skeleton : Skeleton inClass}
    (hlegible : skeleton.Legible t.path names)
    (hraw : t.listing.raw.drop start = skeleton.lines ++ tail)
    (hothers : ∀ types, marksOf ((skeleton.members start).flatMap (laterFacts t owner types)) =
      skeleton.otherMarks names start) :
    marksOf (rangeFacts t owner start (start + skeleton.lines.length)) =
      skeleton.marks names start := by
  have hmembers : Range.members t ⟨owner, start, start + skeleton.lines.length⟩ =
      skeleton.members start :=
    members_skeleton hcode howns.bare howns.isSome skeleton hlegible hraw rfl
  rw [rangeFacts_eq t ⟨owner, start, start + skeleton.lines.length⟩, hmembers, marksOf_append,
    marks_fields hcode howns skeleton hraw, hothers]
  rfl

/-- A range without lines states nothing. -/
theorem marks_empty (t : Document) (owner : String) (start : Nat) :
    marksOf (rangeFacts t owner start start) = [] := by
  have hmembers : Range.members t ⟨owner, start, start⟩ = [] := by
    rw [Range.members, members, if_neg (lt_irrefl start)]
  rw [rangeFacts_eq t ⟨owner, start, start⟩, hmembers]
  rfl

theorem Skeleton.marks_of_lines_eq_nil {skeleton : Skeleton inClass} (h : skeleton.lines = []) :
    skeleton.marks names start = [] := by
  cases skeleton with
  | done => rfl
  | type head foot name inner rest => simp [lines, blockLines] at h
  | field margin name rest => simp [lines] at h
  | method head foot name body rest => simp [lines, blockLines] at h

/-- The methods and classes of a skeleton. -/
theorem marks_others (hcode : t.listing.code = t.listing.raw.map codeOf)
    (howns : Owns t owner names inClass) (skeleton : Skeleton inClass)
    (hlegible : skeleton.Legible t.path names) (types : FieldTypes)
    (hraw : t.listing.raw.drop start = skeleton.lines ++ tail) :
    marksOf ((skeleton.members start).flatMap (laterFacts t owner types)) =
      skeleton.otherMarks names start := by
  -- on the skeleton; what is inside of a class is read as a range with that class as its owner
  induction skeleton generalizing owner names types start tail with
  | done => rfl
  | type head foot name inner rest ihInner ihRest =>
    rw [Skeleton.lines, List.append_assoc] at hraw
    obtain ⟨hname, hpath, hinner, hrest⟩ := hlegible
    obtain ⟨found, hfound, htypeName, hhead⟩ := exists_typeHead
      (m := ⟨.type, start, start + (inner.lines.length + 1), []⟩) howns hname
      (declarationText_head hcode hraw)
    have hinside : marksOf (rangeFacts t (dottedName (names ++ [name.text])) (start + 1)
        (start + (inner.lines.length + 1))) = inner.marks (names ++ [name.text]) (start + 1) := by
      rcases hpath with hempty | hpath
      · rw [inner.marks_of_lines_eq_nil hempty, hempty]
        exact marks_empty _ _ _
      · have hown := Owns.type names name hpath
        have hrange := marks_range hcode hown hinner (drop_inside hraw)
          fun types => ihInner hown hinner types (drop_inside hraw)
        rwa [Nat.add_assoc, Nat.add_comm 1] at hrange
    rw [Skeleton.members, List.flatMap_cons, marksOf_append,
      ihRest howns hrest types (drop_block hraw), laterFacts, if_pos rfl, hfound]
    dsimp only
    rw [marksOf_append, hhead, htypeName, hinside]
    rfl
  | field margin name rest ihRest =>
    rw [Skeleton.lines, List.cons_append] at hraw
    exact ihRest howns hlegible types (drop_line hraw)
  | method head foot name body rest ihRest =>
    rw [Skeleton.lines, List.append_assoc] at hraw
    have hnext := drop_block hraw
    rw [List.length_map] at hnext
    have hown := marksOf_methodFacts (m := ⟨.method, start, start + (body.length + 1), []⟩)
      howns types hlegible.1 (declarationText_head hcode hraw)
    rw [Skeleton.members, List.flatMap_cons, marksOf_append,
      ihRest howns hlegible.2 types hnext, laterFacts, if_neg (by simp), memberFacts]
    dsimp only
    rw [hown]
    rfl

end Stating

/-! ## Surveys of skeletons -/

section Survey

variable (settings : Settings) (fs : FileSystem) {source : Source} {skeleton : Skeleton false}

/-- A survey shows what the facts of the source declare. -/
theorem blocks_survey_eq (hlive : source.cancelled = false) :
    (survey settings fs source).blocks =
      (holdings (facts source.path source.content)).map (·.outline) := by
  have hlength : (Listing.ofText "//" source.content).code.length =
      (Text.lines source.content).length := by simp [Listing.ofText]
  obtain ⟨hdraws, -⟩ := arranges_range ⟨source.path, .ofText "//" source.content⟩
    ⟨source.path, 0, (Listing.ofText "//" source.content).code.length⟩ hlength.le
  have hholds : (survey settings fs source).Holds
      ([] ++ holdings (facts source.path source.content)) := by
    simp only [survey, hlive]
    exact ((Report.Holds.opening _ _ _).recordAll hdraws
      (owned_facts source.path source.content)).detect _ _ _
  exact hholds.blocks_eq

/-- The declarations of a skeleton can be read back from its lines. The survey shows one element for
each, with its kind, its dotted name, its head and its foot; in a class the fields come first. Only
names that are taken for something else are read otherwise. -/
theorem declarations_read_back (hlive : source.cancelled = false)
    (hlines : Text.lines source.content = skeleton.lines)
    (hlegible : skeleton.Legible source.path []) :
    (survey settings fs source).blocks.map markOf = skeleton.marks [] 0 := by
  let t : Document := ⟨source.path, .ofText "//" source.content⟩
  have hcode : t.listing.code = t.listing.raw.map codeOf := rfl
  have hraw : t.listing.raw.drop 0 = skeleton.lines ++ [] := by
    rw [List.drop_zero, List.append_nil]
    exact hlines
  have hrange := marks_range hcode (Owns.file t) hlegible hraw
    fun types => marks_others hcode (Owns.file t) skeleton hlegible types hraw
  have hstop : t.listing.code.length = 0 + skeleton.lines.length := by
    rw [hcode, List.length_map, Nat.zero_add, ← hlines]
    rfl
  rw [blocks_survey_eq settings fs hlive, List.map_map, ← hrange, ← hstop]
  rfl

end Survey

/-- A class with a field after a method and a class within it; a method is called `operator`. -/
def mixed : Skeleton false :=
  .type ⟨"", Eq.refl true⟩ ⟨"", Eq.refl true⟩ ⟨⟨"A", by decide, by decide⟩, by decide⟩
    (.method ⟨"  ", Eq.refl true⟩ ⟨"\t", Eq.refl true⟩ ⟨⟨"operator", by decide, by decide⟩, by decide⟩
      [⟨"    x = 'it'; // it's x", by decide⟩]
      (.type ⟨"  ", Eq.refl true⟩ ⟨"  ", Eq.refl true⟩ ⟨⟨"B", by decide, by decide⟩, by decide⟩
        (.field ⟨"    ", Eq.refl true⟩ ⟨⟨"y", by decide, by decide⟩, by decide⟩ .done)
        (.field ⟨"  ", Eq.refl true⟩ ⟨⟨"x", by decide, by decide⟩, by decide⟩ .done)))
    (.method ⟨"", Eq.refl true⟩ ⟨"", Eq.refl true⟩ ⟨⟨"set", by decide, by decide⟩, by decide⟩ [] .done)

def mixedSource : Source where
  path := "lib/a.dart"
  content := Text.joinLines [
    "class A \x7b", "  void operator() \x7b", "    x = 'it'; // it's x", "\t\x7d", "  class B \x7b",
    "    int y;", "  \x7d", "  int x;", "\x7d", "void set() \x7b", "\x7d"]

/-- The field of the outer class comes before its method and its class. -/
theorem read_back_mixed :
    mixedSource.cancelled = false ∧ Text.lines mixedSource.content = mixed.lines ∧
      mixed.Legible mixedSource.path [] ∧
      (survey {} {} mixedSource).blocks.map markOf = [
        ⟨.type, "A", 1, 9⟩, ⟨.property, "A.x", 8, 8⟩, ⟨.method, "A.operator", 2, 4⟩,
        ⟨.type, "A.B", 5, 7⟩, ⟨.property, "A.B.y", 6, 6⟩, ⟨.method, "set", 10, 11⟩] := by
  have hlines : Text.lines mixedSource.content = mixed.lines := by decide +kernel
  have hlegible : mixed.Legible mixedSource.path [] := by decide +kernel
  refine ⟨rfl, hlines, hlegible, ?_⟩
  rw [declarations_read_back {} {} rfl hlines hlegible]
  rfl

/-- A method whose name begins with the word `operator`. -/
def precedence : Skeleton false :=
  .type ⟨"", Eq.refl true⟩ ⟨"", Eq.refl true⟩ ⟨⟨"Parser", by decide, by decide⟩, by decide⟩
    (.field ⟨"  ", Eq.refl true⟩ ⟨⟨"depth", by decide, by decide⟩, by decide⟩
      (.method ⟨"  ", Eq.refl true⟩ ⟨"  ", Eq.refl true⟩
        ⟨⟨"operatorPrecedence", by decide, by decide⟩, by decide⟩ [⟨"    depth = 1;", by decide⟩]
        .done))
    .done

def precedenceSource : Source where
  path := "lib/a.dart"
  content := Text.joinLines [
    "class Parser \x7b", "  int depth;", "  void operatorPrecedence() \x7b", "    depth = 1;", "  \x7d",
    "\x7d", ""]

/-- The reader takes the word off the name. -/
theorem marks_precedence_ne :
    Text.lines precedenceSource.content = precedence.lines ∧
      ¬ precedence.Legible precedenceSource.path [] ∧
      (survey {} {} precedenceSource).blocks.map markOf ≠ precedence.marks [] 0 := by
  have hnames : Text.lines precedenceSource.content = precedence.lines ∧
      ¬ precedence.Legible precedenceSource.path [] ∧
      ((survey {} {} precedenceSource).blocks.map markOf).map (·.name) =
        ["Parser", "Parser.depth", "Parser.Precedence"] ∧
      (precedence.marks [] 0).map (·.name) =
        ["Parser", "Parser.depth", "Parser.operatorPrecedence"] := by
    decide +kernel
  obtain ⟨hlines, hlegible, hsurvey, hdotted⟩ := hnames
  refine ⟨hlines, hlegible, ?_⟩
  intro heq
  rw [heq, hdotted] at hsurvey
  exact absurd hsurvey (by decide)

end CodeSurvey.Dart
