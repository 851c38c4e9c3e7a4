import CodeSurvey.Proofs.Detect.Findings
import CodeSurvey.Proofs.Detect.Guards
import CodeSurvey.Proofs.Regex.Separate

/-!
# On which lines the statement that goes on after any error is reported

The expression starts at the start of a line and takes all white space before the four words, line
ends too. So a statement is reported on the first of the blank lines directly above it. A text is
searched only if it has the last two words with one blank between them, in one of three spellings.
-/

namespace CodeSurvey.Detect.VisualBasic

open Regex Text

/-! ## The statement -/

def Blank (xs : List Char) : Prop := ∀ x ∈ xs, isBlank x = true

def Gap (xs : List Char) : Prop := 1 ≤ xs.length ∧ Blank xs

/-- The four words of the statement with white space between them. -/
def Phrase : List Char → Prop :=
  InTurn [Spells "on", Gap, Spells "error", Gap, Spells "resume", Gap, Spells "next"]

/-- The text begins with the statement. -/
def Begins (cs : List Char) : Prop :=
  ∃ xs ys, cs = xs ++ ys ∧ Phrase xs ∧ ∀ y ∈ ys.head?, isWord y = false

/-- The text up to the start of a line. -/
def LineStart (pre : List Char) : Prop := ∀ c ∈ pre.getLast?, c = '\n'

/-- At the start of a line, some white space and the statement follow. -/
def Stands (text pre margin : List Char) : Prop :=
  LineStart pre ∧ Blank margin ∧ ∃ cs, text = pre ++ (margin ++ cs) ∧ Begins cs

/-- The line begins with the statement, behind some white space. -/
def StatementOn (text : List Char) (own : Nat) : Prop :=
  ∃ pre margin, Stands text pre margin ∧ '\n' ∉ margin ∧ own = lineAfter pre

/-- No blank line stands directly above. -/
def Topmost (pre : List Char) : Prop := ∀ p q, pre = p ++ q → LineStart p → Blank q → q = []

/-- The statement stands on the line with the number `own`, and `n` is the first of the blank lines
directly above it, or the same line if there are none. -/
def StatementBelow (text : List Char) (n own : Nat) : Prop :=
  ∃ pre margin, Stands text pre margin ∧ Topmost pre ∧ n = lineAfter pre ∧
    own = lineAfter (pre ++ margin)

section Phrases

variable {xs cs : List Char}

theorem isWord_of_foldCase {x c : Char} (h : foldCase x = c)
    (hc : (caseVariants c).all isWord = true) : isWord x = true :=
  List.all_eq_true.mp hc x (h ▸ mem_caseVariants_foldCase x)

theorem Phrase.spelled (h : Phrase xs) :
    ['o', 'n'] <+: xs.map foldCase ∧ ['n', 'e', 'x', 't'] <:+ xs.map foldCase := by
  obtain ⟨on, _, rfl, hon, gap, _, rfl, -, error, _, rfl, -, gap', _, rfl, -, resume, _, rfl, -,
    gap'', _, rfl, -, next, _, rfl, hnext, rfl⟩ := h
  simp only [List.map_append, List.append_nil, hon.map_foldCase, hnext.map_foldCase,
    ← List.append_assoc]
  exact ⟨by simp only [List.append_assoc]; exact List.prefix_append _ _, List.suffix_append _ _⟩

theorem Phrase.exists_head (h : Phrase xs) : ∃ x rest, xs = x :: rest ∧ isWord x = true := by
  obtain ⟨more, hmore⟩ := h.spelled.1
  obtain ⟨x, rest, rfl, hx, -⟩ := List.map_eq_cons_iff.mp hmore.symm
  exact ⟨x, rest, rfl, isWord_of_foldCase hx (by decide)⟩

theorem Phrase.exists_last (h : Phrase xs) : ∃ front x, xs = front ++ [x] ∧ isWord x = true := by
  obtain ⟨more, hmore⟩ := h.spelled.2
  have hlast : xs.map foldCase = more ++ ['n', 'e', 'x'] ++ ['t'] := by simp [← hmore]
  obtain ⟨front, last, rfl, -, hlast⟩ := List.map_eq_append_iff.mp hlast
  obtain ⟨x, rfl, hx⟩ := List.map_eq_singleton_iff.mp hlast
  exact ⟨front, x, rfl, isWord_of_foldCase hx (by decide)⟩

theorem Begins.isBlank_head (h : Begins cs) : ∀ c ∈ cs.head?, isBlank c = false := by
  obtain ⟨xs, ys, rfl, hxs, -⟩ := h
  obtain ⟨x, rest, rfl, hx⟩ := hxs.exists_head
  simpa using isBlank_eq_false_of_isWord hx

end Phrases

/-! ## Lines -/

section Lines

variable {text pre margin us : List Char} {n own : Nat}

theorem lineAfter_append (pre us : List Char) :
    lineAfter (pre ++ us) = lineAfter pre + us.count '\n' := by
  simp only [lineAfter, List.count_append]
  omega

theorem LineStart.newline_mem (h : LineStart (pre ++ us)) (hne : us ≠ []) : '\n' ∈ us := by
  obtain ⟨front, last, rfl⟩ := (List.eq_nil_or_concat' us).resolve_left hne
  obtain rfl : last = '\n' := h last (by simp [← List.append_assoc])
  exact List.mem_concat_self

theorem LineStart.lineAfter_lt (h : LineStart (pre ++ us)) (hne : us ≠ []) :
    lineAfter pre < lineAfter (pre ++ us) := by
  have hcount := List.count_pos_iff.mpr (h.newline_mem hne)
  rw [lineAfter_append]
  omega

theorem LineStart.append {front : List Char} (h : LineStart pre) (hfront : LineStart front) :
    LineStart (pre ++ front) := by
  intro c hc
  rw [List.getLast?_append, Option.mem_def, Option.or_eq_some_iff] at hc
  exact hc.elim (hfront c) fun hpre => h c hpre.2

theorem exists_lineStart (xs : List Char) :
    ∃ front tail, xs = front ++ tail ∧ LineStart front ∧ '\n' ∉ tail := by
  induction xs using List.reverseRecOn with
  | nil => exact ⟨[], [], rfl, by simp [LineStart], by simp⟩
  | append_singleton xs x ih =>
    by_cases hx : x = '\n'
    · exact ⟨xs ++ [x], [], by simp, by simp [LineStart, hx], by simp⟩
    · obtain ⟨front, tail, rfl, hfront, htail⟩ := ih
      exact ⟨front, tail ++ [x], by simp, hfront, by simp [htail, Ne.symm hx]⟩

/-- The line of the statement itself starts behind the last line end of the white space. -/
theorem Stands.statementOn (h : Stands text pre margin) :
    StatementOn text (lineAfter (pre ++ margin)) := by
  obtain ⟨hstart, hmargin, cs, htext, hcs⟩ := h
  obtain ⟨front, tail, rfl, hfront, htail⟩ := exists_lineStart margin
  refine ⟨pre ++ front, tail, ⟨hstart.append hfront, ?_, cs, by simp [htext], hcs⟩, htail, ?_⟩
  · exact (List.forall_mem_append.mp hmargin).2
  · rw [← List.append_assoc, lineAfter_append (pre ++ front), List.count_eq_zero_of_not_mem htail,
      add_zero]

/-- The blank lines directly above are passed over. -/
theorem Stands.exists_topmost (h : Stands text pre margin) :
    ∃ p q, pre = p ++ q ∧ Stands text p (q ++ margin) ∧ Topmost p := by
  induction hn : pre.length using Nat.strong_induction_on generalizing pre margin with
  | _ n ih =>
  by_cases htop : Topmost pre
  · exact ⟨pre, [], by simp, h, htop⟩
  · simp only [Topmost, not_forall] at htop
    obtain ⟨p, q, rfl, hstart, hblank, hne⟩ := htop
    obtain ⟨-, hmargin, cs, htext, hcs⟩ := h
    have hstands : Stands text p (q ++ margin) :=
      ⟨hstart, List.forall_mem_append.mpr ⟨hblank, hmargin⟩, cs, by simp [htext], hcs⟩
    have hlength : p.length < n := by
      have hpositive := List.length_pos_iff.mpr hne
      rw [← hn, List.length_append]
      omega
    obtain ⟨r, u, rfl, hr, htop⟩ := ih p.length hlength hstands rfl
    exact ⟨r, u ++ q, by simp, by simpa using hr, htop⟩

theorem StatementBelow.statementOn (h : StatementBelow text n own) : StatementOn text own := by
  obtain ⟨pre, margin, hstands, -, -, rfl⟩ := h
  exact hstands.statementOn

theorem StatementOn.exists_statementBelow (h : StatementOn text own) :
    ∃ n, StatementBelow text n own := by
  obtain ⟨pre, margin, hstands, hmargin, rfl⟩ := h
  obtain ⟨p, q, rfl, htop⟩ := hstands.exists_topmost
  refine ⟨lineAfter p, p, q ++ margin, htop.1, htop.2, rfl, ?_⟩
  rw [← List.append_assoc, lineAfter_append (p ++ q), List.count_eq_zero_of_not_mem hmargin,
    add_zero]

/-- No statement stands on the blank lines above another one. -/
theorem StatementBelow.eq_of_statementOn (h : StatementBelow text n own)
    (hn : StatementOn text n) : n = own := by
  obtain ⟨pre, margin, ⟨hstart, hblank, cs, rfl, hcs⟩, -, rfl, rfl⟩ := h
  obtain ⟨pre', margin', ⟨hstart', -, cs', heq, hcs'⟩, hline, hnumber⟩ := hn
  obtain rfl : pre = pre' := by
    rcases List.append_eq_append_iff.mp heq with ⟨us, rfl, -⟩ | ⟨us, rfl, -⟩
    · by_contra hne
      exact (hstart'.lineAfter_lt (by simpa using hne)).ne hnumber
    · by_contra hne
      exact (hstart.lineAfter_lt (by simpa using hne)).ne' hnumber
  have hnone : '\n' ∉ margin := by
    rcases List.append_eq_append_iff.mp (List.append_cancel_left heq) with
      ⟨us, rfl, -⟩ | ⟨us, rfl, hus⟩
    · exact fun hmem => hline (List.mem_append_left us hmem)
    · cases us with
      | nil => simpa using hline
      | cons u us =>
        have hu := hcs'.isBlank_head u (by simp [hus])
        rw [hblank u (by simp)] at hu
        cases hu
  rw [lineAfter_append, List.count_eq_zero_of_not_mem hnone, add_zero]

end Lines

/-! ## Where the expression matches -/

section Matches

variable {bound : Nat} {s t : Cursor} {m : Match} {text pre rest margin : List Char}

theorem reads_resumeNext : Reads resumeNext s t ↔
    Anchor.lineStart.holds s = true ∧ ∃ margin xs ys, s.rest = margin ++ (xs ++ ys) ∧
      Blank margin ∧ Phrase xs ∧ (∀ y ∈ ys.head?, isWord y = false) ∧
      t = s.past (margin ++ xs) := by
  let words : List Regex := [litAnyCase "On", gap, litAnyCase "Error", gap, litAnyCase "Resume",
    gap, litAnyCase "Next"]
  have hwords : Spans (all words) Phrase :=
    spans_all (.cons (spans_litAnyCase (by decide)) (.cons (spans_atLeast 1 .blank)
      (.cons (spans_litAnyCase (by decide)) (.cons (spans_atLeast 1 .blank)
        (.cons (spans_litAnyCase (by decide)) (.cons (spans_atLeast 1 .blank)
          (.cons (spans_litAnyCase (by decide)) .nil)))))))
  have hedge {margin xs ys : List Char} (hrest : s.rest = margin ++ (xs ++ ys)) (hxs : Phrase xs) :
      Anchor.wordEdge.holds (s.past (margin ++ xs)) = true ↔ ∀ y ∈ ys.head?, isWord y = false := by
    obtain ⟨front, x, rfl, hx⟩ := hxs.exists_last
    rw [← List.append_assoc margin] at hrest ⊢
    rw [holds_wordEdge_behind_iff (Cursor.before_past_concat s _ x) hx, Cursor.rest_past]
    rw [hrest, List.append_assoc margin front]
  change Reads (all (lineStart :: blanks :: (words ++ [edge]))) s t ↔ _
  simp only [reads_all_cons, reads_all_append, reads_all_nil]
  constructor
  · rintro ⟨u, hstart, v, hblank, w, hphrase, x, hlook, rfl⟩
    obtain ⟨hholds, rfl⟩ := reads_look.mp hstart
    obtain ⟨margin, cs, hrest, hmargin, rfl⟩ := (spans_many .blank _ _).mp hblank
    obtain ⟨xs, ys, hrest', hxs, rfl⟩ := (hwords _ _).mp hphrase
    rw [Cursor.rest_past hrest] at hrest'
    subst hrest'
    rw [← Cursor.past_append] at hlook
    obtain ⟨hends, rfl⟩ := reads_look.mp hlook
    exact ⟨hholds, margin, xs, ys, hrest, hmargin, hxs, (hedge hrest hxs).mp hends, rfl⟩
  · rintro ⟨hholds, margin, xs, ys, hrest, hmargin, hxs, hys, rfl⟩
    refine ⟨s, reads_look.mpr ⟨hholds, rfl⟩, s.past margin, ?_, s.past (margin ++ xs), ?_, _,
      reads_look.mpr ⟨(hedge hrest hxs).mpr hys, rfl⟩, rfl⟩
    · exact (spans_many .blank _ _).mpr ⟨margin, xs ++ ys, hrest, hmargin, rfl⟩
    · exact (hwords _ _).mpr ⟨xs, ys, Cursor.rest_past hrest, hxs, Cursor.past_append s margin xs⟩

theorem holds_lineStart_iff :
    Anchor.lineStart.holds ((Cursor.ofChars text).past pre) = true ↔ LineStart pre := by
  rw [Anchor.holds, Cursor.before_ofChars_past, LineStart]
  cases pre.getLast? with
  | none | some => simp

theorem of_matchAt (htext : text = pre ++ rest)
    (h : resumeNext.matchAt bound ((Cursor.ofChars text).past pre) = some (m, t)) :
    m.start = pre.length ∧ LineStart pre ∧ ∃ margin xs ys, rest = margin ++ (xs ++ ys) ∧
      Blank margin ∧ Phrase xs ∧ (∀ y ∈ ys.head?, isWord y = false) ∧
      t = ((Cursor.ofChars text).past (pre ++ (margin ++ xs))).withGroups [] := by
  obtain ⟨hholds, margin, xs, ys, hrest, hmargin, hxs, hys, rfl⟩ :=
    reads_resumeNext.mp (reads_of_matchAt h).1
  have hstart : m.start = pre.length := by
    obtain ⟨zs, ws, groups, -, -, rfl⟩ := exists_of_matchAt h
    exact (Cursor.index_past _ pre).trans (Nat.zero_add _)
  have hplace : ((Cursor.ofChars text).past pre).rest = rest := Cursor.rest_past htext
  refine ⟨hstart, holds_lineStart_iff.mp hholds, margin, xs, ys, hplace.symm.trans hrest, hmargin,
    hxs, hys, ?_⟩
  rw [Cursor.past_append _ pre]
  exact ((Cursor.ofChars text).past pre).withGroups_past [] (margin ++ xs)

theorem Stands.exists_matchAt (h : Stands text pre margin) (hbound : text.length ≤ bound) :
    ∃ m t, resumeNext.matchAt bound ((Cursor.ofChars text).past pre) = some (m, t) := by
  obtain ⟨hstart, hmargin, cs, htext, xs, ys, rfl, hxs, hys⟩ := h
  have hrest : ((Cursor.ofChars text).past pre).rest = margin ++ (xs ++ ys) :=
    Cursor.rest_past htext
  have hread : Reads resumeNext (((Cursor.ofChars text).past pre).withGroups []) _ :=
    reads_resumeNext.mpr
      ⟨holds_lineStart_iff.mpr hstart, margin, xs, ys, hrest, hmargin, hxs, hys, rfl⟩
  have hsome : (resumeNext.matchAt bound ((Cursor.ofChars text).past pre)).isSome = true :=
    hread.isSome_run ((Cursor.length_rest_past_le _ pre).trans hbound) rfl
  obtain ⟨found, hfound⟩ := Option.isSome_iff_exists.mp hsome
  exact ⟨found.1, found.2, hfound⟩

theorem advances_resumeNext : Advances bound resumeNext := advances_of_leastLength (by decide)

/-- A search finds a match no later than at a statement. -/
theorem Stands.exists_search {zs : List Char} (h : Stands text (pre ++ zs) margin)
    (hbound : text.length ≤ bound) :
    ∃ ws us m t, zs = ws ++ us ∧ m.start = (pre ++ ws).length ∧
      resumeNext.search bound ((Cursor.ofChars text).past pre) = some (m, t) := by
  obtain ⟨m, t, hmatch⟩ := h.exists_matchAt hbound
  obtain ⟨-, -, cs, htext, -⟩ := h
  rw [List.append_assoc] at htext
  have hrest : ((Cursor.ofChars text).past pre).rest = zs ++ (margin ++ cs) :=
    Cursor.rest_past htext
  rw [Cursor.past_append] at hmatch
  obtain ⟨ws, us, m', t', rfl, hfirst, hsearch⟩ := exists_search_of_matchAt hrest hmatch
  rw [← Cursor.past_append] at hfirst
  have hplace : text = pre ++ ws ++ (us ++ (margin ++ cs)) := by simp [htext]
  exact ⟨ws, us, m', t', rfl, (of_matchAt hplace hfirst).1, hsearch⟩

/-- Behind a text that does not end with white space, a search stops at the first of the blank lines
above a statement. -/
theorem of_search (hbound : text.length ≤ bound) (htext : text = pre ++ rest)
    (hink : ∀ c ∈ pre.getLast?, isBlank c = false)
    (h : resumeNext.search bound ((Cursor.ofChars text).past pre) = some (m, t)) :
    ∃ zs margin xs ys, text = pre ++ zs ++ (margin ++ (xs ++ ys)) ∧ Phrase xs ∧
      Stands text (pre ++ zs) margin ∧ Topmost (pre ++ zs) ∧ m.start = (pre ++ zs).length ∧
      t = ((Cursor.ofChars text).past (pre ++ zs ++ (margin ++ xs))).withGroups [] := by
  obtain ⟨zs, after, hsplit, hmatch⟩ := exists_place_of_search h
  have hrest : ((Cursor.ofChars text).past pre).rest = rest := Cursor.rest_past htext
  rw [← hrest, hsplit, ← List.append_assoc] at htext
  rw [← Cursor.past_append] at hmatch
  obtain ⟨hindex, hstart, margin, xs, ys, rfl, hmargin, hxs, hys, rfl⟩ := of_matchAt htext hmatch
  have hstands : Stands text (pre ++ zs) margin :=
    ⟨hstart, hmargin, xs ++ ys, htext, xs, ys, rfl, hxs, hys⟩
  refine ⟨zs, margin, xs, ys, htext, hxs, hstands, ?_, hindex, rfl⟩
  intro p q hpq hp hq
  obtain ⟨us, rfl, rfl⟩ : ∃ us, p = pre ++ us ∧ zs = us ++ q := by
    rcases List.append_eq_append_iff.mp hpq with hlater | ⟨us, rfl, rfl⟩
    · exact hlater
    · obtain rfl | ⟨front, c, rfl⟩ := List.eq_nil_or_concat' us
      · exact ⟨[], by simp, rfl⟩
      · have hc := hink c (by simp [← List.append_assoc])
        rw [hq c (by simp)] at hc
        cases hc
  -- the search would have stopped earlier
  have hearlier : Stands text (pre ++ us) (q ++ margin) :=
    ⟨hp, List.forall_mem_append.mpr ⟨hq, hmargin⟩, xs ++ ys, by simp [htext], xs, ys, rfl, hxs, hys⟩
  obtain ⟨ws, vs, m', t', rfl, hindex', hsearch⟩ := hearlier.exists_search hbound
  rw [h] at hsearch
  cases hsearch
  rw [hindex] at hindex'
  simp only [List.length_append] at hindex'
  exact List.length_eq_zero_iff.mp (by omega)

theorem Stands.prefix_of_search {zs w : List Char} (h : Stands text (pre ++ zs) margin)
    (hbound : text.length ≤ bound)
    (hsearch : resumeNext.search bound ((Cursor.ofChars text).past pre) = some (m, t))
    (hindex : m.start = w.length) (hw : w <+: text) : w <+: pre ++ zs := by
  obtain ⟨ws, us, m', t', rfl, hindex', hfirst⟩ := h.exists_search hbound
  rw [hsearch] at hfirst
  cases hfirst
  obtain ⟨-, -, cs, hcs, -⟩ := h
  refine List.prefix_of_prefix_length_le hw ⟨_, hcs.symm⟩ ?_
  rw [← hindex, hindex', ← List.append_assoc]
  exact (List.prefix_append _ us).length_le

/-- A statement that is not split over lines has no other one inside of it. -/
theorem Stands.eq_or_prefix {p w xs ys other : List Char} (h : Stands text p other)
    (htop : Topmost p) (hfront : w <+: p) (hxs : '\n' ∉ xs) (hw : Stands text w margin)
    (htext : text = w ++ (margin ++ (xs ++ ys))) : p = w ∨ w ++ (margin ++ xs) <+: p := by
  obtain ⟨hp, -, cs, hcs, -⟩ := h
  have hread : w ++ (margin ++ xs) <+: text := ⟨ys, by simp [htext]⟩
  refine (List.prefix_or_prefix_of_prefix hread ⟨_, hcs.symm⟩).symm.imp_left fun hshort => ?_
  obtain ⟨us, rfl⟩ := hfront
  rw [List.prefix_append_right_inj] at hshort
  by_cases hus : us <+: margin
  · rw [htop w us rfl hw.1 fun x hx => hw.2.1 x (hus.subset hx), List.append_nil]
  · obtain ⟨vs, rfl⟩ :=
      (List.prefix_or_prefix_of_prefix hshort (List.prefix_append margin xs)).resolve_left hus
    rw [List.prefix_append_right_inj] at hshort
    rw [← List.append_assoc] at hp
    obtain rfl | hvs := eq_or_ne vs []
    · simp at hus
    · exact absurd (hshort.subset (hp.newline_mem hvs)) hxs

/-- Where the words are not split over lines, the matches behind a text that does not end with white
space start at the first of the blank lines above the statements. -/
theorem lines_of_matches (hunsplit : ∀ xs, xs <:+: text → Phrase xs → '\n' ∉ xs)
    (hbound : text.length ≤ bound) (htext : text = pre ++ rest)
    (hink : ∀ c ∈ pre.getLast?, isBlank c = false) {fuel : Nat} (hfuel : rest.length < fuel)
    (last : Option Nat) {found : List Nat}
    (hfound : (resumeNext.matchesFrom bound fuel last ((Cursor.ofChars text).past pre)).map
      (fun m => lineAfter (text.take m.start)) = found) :
    found.Pairwise (· < ·) ∧ ∀ n, n ∈ found ↔
      ∃ p margin, pre <+: p ∧ Stands text p margin ∧ Topmost p ∧ n = lineAfter p := by
  induction fuel generalizing pre rest last found with
  | zero => cases hfuel
  | succ fuel ih =>
    cases hsearch : resumeNext.search bound ((Cursor.ofChars text).past pre) with
    | none =>
      rw [matchesFrom, hsearch] at hfound
      subst hfound
      refine ⟨.nil, fun n => iff_of_false List.not_mem_nil ?_⟩
      rintro ⟨p, margin, ⟨zs, rfl⟩, hstands, -⟩
      obtain ⟨ws, us, m, t, -, -, hfirst⟩ := hstands.exists_search hbound
      rw [hsearch] at hfirst
      cases hfirst
    | some first =>
      obtain ⟨m, t⟩ := first
      obtain ⟨zs, margin, xs, ys, hsplit, hxs, hstands, htop, hindex, rfl⟩ :=
        of_search hbound htext hink hsearch
      have hagain (fuel : Nat) (last : Option Nat) (s : Cursor) :
          resumeNext.matchesFrom bound fuel last (s.withGroups []) =
            resumeNext.matchesFrom bound fuel last s := by
        apply matchesFrom_congr advances_resumeNext
        rfl
      have htake : text.take (pre ++ zs).length = pre ++ zs := by rw [hsplit, List.take_left]
      rw [matchesFrom_cons advances_resumeNext hsearch, List.map_cons, hindex, htake, hagain]
        at hfound
      obtain ⟨front, x, hfront, hx⟩ := hxs.exists_last
      have hbehind : text = pre ++ zs ++ (margin ++ xs) ++ ys := by simp [hsplit]
      have hlast : ∀ c ∈ (pre ++ zs ++ (margin ++ xs)).getLast?, isBlank c = false := by
        simpa [hfront, ← List.append_assoc] using isBlank_eq_false_of_isWord hx
      have hless : ys.length < fuel := by
        have hlength := congrArg List.length (htext.symm.trans hbehind)
        simp only [hfront, List.length_append, List.length_singleton] at hlength
        omega
      obtain ⟨hpairwise, hmem⟩ := ih hbehind hlast hless _ rfl
      subst hfound
      refine ⟨List.pairwise_cons.mpr ⟨fun n hn => ?_, hpairwise⟩, fun n => ?_⟩
      · obtain ⟨p, margin', ⟨us, rfl⟩, hp, -, rfl⟩ := (hmem n).mp hn
        rw [List.append_assoc] at hp ⊢
        exact hp.1.lineAfter_lt (by simp [hfront])
      rw [List.mem_cons, hmem]
      constructor
      · rintro (rfl | ⟨p, margin', hprefix, hp⟩)
        · exact ⟨pre ++ zs, margin, List.prefix_append pre zs, hstands, htop, rfl⟩
        · refine ⟨p, margin', (List.prefix_append pre zs).trans (.trans ?_ hprefix), hp⟩
          exact List.prefix_append _ _
      · rintro ⟨p, margin', ⟨zs', rfl⟩, hp, hptop, rfl⟩
        have hinside : xs <:+: text := ⟨pre ++ zs ++ margin, ys, by simp [hsplit]⟩
        obtain hsame | hbehind := hp.eq_or_prefix hptop (hp.prefix_of_search hbound hsearch hindex
          ⟨_, hsplit.symm⟩) (hunsplit xs hinside hxs) hstands hsplit
        · exact .inl (congrArg lineAfter hsame)
        · exact .inr ⟨_, margin', hbehind, hp, hptop, rfl⟩

end Matches

/-! ## Main statement -/

/-- No statement in the text is split over lines. -/
def Unsplit (text : String) : Prop := ∀ xs, xs <:+: text.toList → Phrase xs → '\n' ∉ xs

/-- The lines on which the statement is reported. -/
def resumeLines (r : Report) : List Nat :=
  (r.findingsNamed "VB_OnErrorResumeNext").map (·.lineNumber)

section Survey

variable (settings : Settings) (fs : FileSystem) {source : Source}

theorem exists_resumeLines (hlive : source.cancelled = false)
    (henabled : isDisabled settings.detectors.disabled "VB_OnErrorResumeNext" = false) :
    ∃ scene : Scene, scene.source = source.content ∧
      resumeLines (VisualBasic.survey settings fs source) =
        (onErrorResumeNext.findings scene).map (·.lineNumber) := by
  have hrule : onErrorResumeNext ∈ [dependencyRegistration, onErrorResumeNext,
    hardcodedSecret "VB_HardcodedSecret"] := List.mem_cons_of_mem _ List.mem_cons_self
  simp only [VisualBasic.survey, hlive, Bool.false_eq_true, if_false, resumeLines, bank]
  exact ⟨_, rfl, congrArg _ (Report.findingsNamed_detect
    ((Report.undetected_opening _ _ _).recordAll _ _).findings (by decide) hrule henabled)⟩

/-- What is found in a text that is searched. -/
theorem lines_unguarded {scene : Scene} (hunsplit : Unsplit scene.source) :
    ((onErrorResumeNext.unguarded scene).map (·.lineNumber)).Pairwise (· < ·) ∧
      ∀ n, n ∈ (onErrorResumeNext.unguarded scene).map (·.lineNumber) ↔
        ∃ own, StatementBelow scene.source.toList n own := by
  have hfuel : scene.source.toList.length < 2 * scene.source.length + 2 := by
    rw [String.length_toList]
    omega
  have hlines : (resumeNext.matchesFrom scene.source.length (2 * scene.source.length + 2) none
      ((Cursor.ofChars scene.source.toList).past [])).map
        (fun m => lineAfter (scene.source.toList.take m.start)) =
      (onErrorResumeNext.unguarded scene).map (·.lineNumber) := by
    simp only [Rule.unguarded, onErrorResumeNext, Scene.matchesOf, List.map_map]
    rfl
  obtain ⟨hpairwise, hmem⟩ := lines_of_matches hunsplit String.length_toList.le
    (List.nil_append scene.source.toList).symm (by simp) hfuel none hlines
  refine ⟨hpairwise, fun n => (hmem n).trans ?_⟩
  constructor
  · rintro ⟨p, margin, -, hstands, htop, rfl⟩
    exact ⟨_, p, margin, hstands, htop, rfl, rfl⟩
  · rintro ⟨own, p, margin, hstands, htop, rfl, -⟩
    exact ⟨p, margin, List.nil_prefix, hstands, htop, rfl⟩

/-- Where no statement is split over lines, the lines on which one is reported ascend. They are the
first of the blank lines directly above a statement each, and there are none if the last two words
occur nowhere in one of three spellings. So these are the lines of the statements just if there are
no statements, or the words are spelled so somewhere and no blank line stands directly above a
statement. -/
theorem resumeLines_survey (hlive : source.cancelled = false)
    (henabled : isDisabled settings.detectors.disabled "VB_OnErrorResumeNext" = false)
    (hunsplit : Unsplit source.content) :
    (resumeLines (VisualBasic.survey settings fs source)).Pairwise (· < ·) ∧
      (∀ n, n ∈ resumeLines (VisualBasic.survey settings fs source) ↔
        (∃ g ∈ ["Resume Next", "resume next", "RESUME NEXT"], Occurs g source.content) ∧
          ∃ own, StatementBelow source.content.toList n own) ∧
      ((∀ n, n ∈ resumeLines (VisualBasic.survey settings fs source) ↔
          StatementOn source.content.toList n) ↔
        (∀ n, ¬ StatementOn source.content.toList n) ∨
          (∃ g ∈ ["Resume Next", "resume next", "RESUME NEXT"], Occurs g source.content) ∧
            ∀ n own, StatementBelow source.content.toList n own → n = own) := by
  obtain ⟨scene, hscene, hfound⟩ := exists_resumeLines settings fs hlive henabled
  rw [hfound]
  rw [← hscene] at hunsplit ⊢
  obtain ⟨hpairwise, hlines⟩ := lines_unguarded hunsplit
  have hguarded (h : ∃ g ∈ ["Resume Next", "resume next", "RESUME NEXT"], Occurs g scene.source) :
      onErrorResumeNext.findings scene = onErrorResumeNext.unguarded scene := by
    obtain ⟨g, hg, hoccurs⟩ := h
    exact Rule.findings_of_occurs hg hoccurs
  have hnone (h : ¬ ∃ g ∈ ["Resume Next", "resume next", "RESUME NEXT"], Occurs g scene.source) :
      onErrorResumeNext.findings scene = [] :=
    Rule.findings_of_not_occurs (List.cons_ne_nil _ _) fun g hg hoccurs => h ⟨g, hg, hoccurs⟩
  generalize (∃ g ∈ ["Resume Next", "resume next", "RESUME NEXT"], Occurs g scene.source) = guard
    at hguarded hnone ⊢
  have hmem (n : Nat) : n ∈ (onErrorResumeNext.findings scene).map (·.lineNumber) ↔
      guard ∧ ∃ own, StatementBelow scene.source.toList n own := by
    by_cases hguard : guard
    · rw [hguarded hguard, hlines, iff_true_intro hguard, true_and]
    · simp [hnone hguard, hguard]
  refine ⟨?_, hmem, ?_⟩
  · by_cases hguard : guard
    · rwa [hguarded hguard]
    · rw [hnone hguard]
      exact .nil
  · simp only [hmem]
    constructor
    · intro hexact
      by_cases hsome : ∃ own, StatementOn scene.source.toList own
      · obtain ⟨own, hown⟩ := hsome
        refine .inr ⟨((hexact own).mpr hown).1, fun n own h => ?_⟩
        exact h.eq_of_statementOn ((hexact n).mp ⟨((hexact _).mpr hown).1, own, h⟩)
      · exact .inl (not_exists.mp hsome)
    · rintro (hempty | ⟨hguard, hsame⟩) n
      · exact iff_of_false (fun ⟨_, own, h⟩ => hempty own h.statementOn) (hempty n)
      · refine ⟨fun ⟨_, own, h⟩ => hsame n own h ▸ h.statementOn, fun h => ⟨hguard, n, ?_⟩⟩
        obtain ⟨m, hm⟩ := h.exists_statementBelow
        exact hsame m n hm ▸ hm

end Survey

/-! ## Two statements that are not reported on their lines -/

/-- The statement with some white space before the last word. -/
theorem begins_spaced (gap : List Char) (hgap : Gap gap) (more : List Char) :
    Begins ("On Error Resume".toList ++ (gap ++ ("Next".toList ++ '\r' :: more))) := by
  have hblank : Gap [' '] := ⟨le_rfl, by simp [Blank, isBlank]⟩
  refine ⟨"On Error Resume".toList ++ (gap ++ "Next".toList), '\r' :: more, by simp, ?_,
    by simp [isWord]⟩
  exact ⟨"On".toList, _, rfl, by decide, [' '], _, rfl, hblank, "Error".toList, _, rfl, by decide,
    [' '], _, rfl, hblank, "Resume".toList, _, rfl, by decide, gap, _, rfl, hgap, "Next".toList, [],
    by simp, by decide, rfl⟩

/-- A blank line stands between the head of a method and the statement. -/
def mainSource : Source where
  path := "Main.vb"
  content := "Sub Main()\r\n\r\n  On Error Resume Next\r\nEnd Sub\r\n"

theorem stands_mainSource : Stands mainSource.content.toList "Sub Main()\r\n".toList
    ['\r', '\n', ' ', ' '] := by
  refine ⟨by simp [LineStart], by simp [Blank, isBlank], _, ?_,
    begins_spaced [' '] ?_ "\nEnd Sub\r\n".toList⟩
  · decide +kernel
  · exact ⟨le_rfl, by simp [Blank, isBlank]⟩

theorem unsplit_mainSource : Unsplit mainSource.content := by
  have hall : ∀ ys ∈ mainSource.content.toList.tails.flatMap List.inits, '\n' ∈ ys →
      ¬ (['o', 'n'] <+: ys.map foldCase ∧ ['n', 'e', 'x', 't'] <:+ ys.map foldCase) := by
    decide +kernel
  intro xs hinfix hxs hmem
  obtain ⟨ys, hprefix, hsuffix⟩ := List.infix_iff_prefix_suffix.mp hinfix
  refine hall xs (List.mem_flatMap.mpr ⟨ys, ?_, ?_⟩) hmem hxs.spelled
  · exact (List.mem_tails _ _).mpr hsuffix
  · exact (List.mem_inits _ _).mpr hprefix

theorem resumeLines_survey_mainSource :
    Unsplit mainSource.content ∧ ∃ n own, StatementBelow mainSource.content.toList n own ∧
      n ∈ resumeLines (VisualBasic.survey {} {} mainSource) := by
  obtain ⟨n, hn⟩ := stands_mainSource.statementOn.exists_statementBelow
  have hoccurs : Occurs "Resume Next" mainSource.content :=
    (contains_iff_occurs _ _).mp (by decide +kernel)
  have hlines := (resumeLines_survey {} {} rfl rfl unsplit_mainSource).2.1 n
  exact ⟨unsplit_mainSource, n, _, hn, hlines.mpr ⟨⟨_, List.mem_cons_self, hoccurs⟩, _, hn⟩⟩

/-- Two blanks stand before the last word. -/
def spacedSource : Source where
  path := "Main.vb"
  content := "On Error Resume  Next\r\n"

/-- A statement below a blank line is reported above its own line, and one with two blanks before
the last word is not reported. -/
theorem resumeLines_missed :
    StatementOn mainSource.content.toList 3 ∧
      resumeLines (VisualBasic.survey {} {} mainSource) = [2] ∧
      StatementOn spacedSource.content.toList 1 ∧
      resumeLines (VisualBasic.survey {} {} spacedSource) = [] := by
  have hspaced : Stands spacedSource.content.toList [] [] := by
    refine ⟨by simp [LineStart], by simp [Blank], _, ?_, begins_spaced [' ', ' '] ?_ ['\n']⟩
    · decide +kernel
    · exact ⟨by decide, by simp [Blank, isBlank]⟩
  exact ⟨stands_mainSource.statementOn, by decide +kernel, hspaced.statementOn, by decide +kernel⟩

end CodeSurvey.Detect.VisualBasic
