import CodeSurvey.Text.Lines
import Mathlib

/-!
# Rows of a text

A row is a line together with the characters that end it. The rows of a text put together are the
text, and their lines are the lines of the text.
-/

namespace CodeSurvey.Text

/-- A line of a text with the characters that end it. -/
structure Row where
  line : List Char
  ending : List Char

def Row.chars (r : Row) : List Char := r.line ++ r.ending

/-- Rows as they follow one another in a text. A row ends with a line feed or with a carriage return and a
line feed. The last row may end with the text instead, and is not empty then. -/
inductive Ruled : List Row → Prop
  | nil : Ruled []
  | last {line : List Char} (hne : line ≠ []) (hline : '\n' ∉ line) : Ruled [⟨line, []⟩]
  | feed {line : List Char} {rows : List Row} (hline : '\n' ∉ line)
      (hreturn : line.getLast? ≠ some '\r') (hrows : Ruled rows) : Ruled (⟨line, ['\n']⟩ :: rows)
  | returnFeed {line : List Char} {rows : List Row} (hline : '\n' ∉ line) (hrows : Ruled rows) :
      Ruled (⟨line, ['\r', '\n']⟩ :: rows)

/-- A line feed ends what is before it with or without a carriage return. -/
theorem Ruled.exists_break {line : List Char} {rows : List Row} (hrows : Ruled rows)
    (hline : '\n' ∉ line) :
    ∃ row, Ruled (row :: rows) ∧ row.chars = line ++ ['\n'] ∧ row.line = dropReturn line := by
  by_cases hreturn : line.getLast? = some '\r'
  · obtain ⟨front, rfl⟩ := List.getLast?_eq_some_iff.mp hreturn
    rw [List.mem_append, not_or] at hline
    exact ⟨_, .returnFeed hline.1 hrows, by simp [Row.chars], by simp [dropReturn]⟩
  · exact ⟨_, .feed hline hreturn hrows, rfl, (if_neg hreturn).symm⟩

theorem exists_ruled_linesOf {pending : List Char} (h : '\n' ∉ pending) (cs : List Char) :
    ∃ rows, Ruled rows ∧ rows.flatMap Row.chars = pending.reverse ++ cs ∧
      rows.map Row.line = linesOf pending cs := by
  fun_induction linesOf pending cs with
  | case1 pending hempty => exact ⟨[], .nil, by simpa using hempty, rfl⟩
  | case2 pending hempty =>
    exact ⟨_, .last (by simpa using hempty) (by simpa using h), by simp [Row.chars], rfl⟩
  | case3 pending cs ih =>
    obtain ⟨rows, hrows, hchars, hlines⟩ := ih List.not_mem_nil
    have hpending : '\n' ∉ pending.reverse := by simpa using h
    obtain ⟨row, hrow, hchars', hline⟩ := hrows.exists_break hpending
    exact ⟨row :: rows, hrow, by simp [hchars, hchars'], by rw [List.map_cons, hline, hlines]⟩
  | case4 pending c cs hc ih =>
    obtain ⟨rows, hrows, hchars, hlines⟩ := ih (by simp [Ne.symm hc, h])
    exact ⟨rows, hrows, by simpa using hchars, hlines⟩

/-- A text is made of rows, and their lines are its lines. -/
theorem exists_rows (s : String) :
    ∃ rows, Ruled rows ∧ rows.flatMap Row.chars = s.toList ∧
      rows.map (fun r => String.ofList r.line) = lines s := by
  obtain ⟨rows, hrows, hchars, hlines⟩ := exists_ruled_linesOf List.not_mem_nil s.toList
  exact ⟨rows, hrows, hchars, by rw [lines, ← hlines, List.map_map]; rfl⟩

theorem Ruled.newline_not_mem {rows : List Row} (h : Ruled rows) {row : Row} (hrow : row ∈ rows) :
    '\n' ∉ row.line := by
  induction h with
  | nil => cases hrow
  | last _ hline => rwa [List.mem_singleton.mp hrow]
  | feed hline _ _ ih | returnFeed hline _ ih =>
    rcases List.mem_cons.mp hrow with rfl | hrow
    · exact hline
    · exact ih hrow

/-- Within a row a line feed stands at the end alone, and it does stand there when rows follow. -/
theorem Ruled.of_cons {row : Row} {rows : List Row} (h : Ruled (row :: rows)) :
    Ruled rows ∧ '\n' ∉ row.chars.dropLast ∧ (rows = [] ∨ row.chars.count '\n' = 1) := by
  cases h with
  | last hne hline =>
    exact ⟨.nil, fun h => hline ((List.dropLast_subset _) (by simpa [Row.chars] using h)), .inl rfl⟩
  | feed hline _ hrows | returnFeed hline hrows =>
    refine ⟨hrows, by simpa [Row.chars] using hline, .inr ?_⟩
    simp [Row.chars, List.count_eq_zero.mpr hline]

/-- The character behind a part of the text stands in the row that has as many rows above it as there are
line feeds in this part. -/
theorem Ruled.exists_row {rows : List Row} (h : Ruled rows) {before after : List Char} {c : Char}
    (htext : rows.flatMap Row.chars = before ++ c :: after) :
    ∃ above row below left right, rows = above ++ row :: below ∧ row.chars = left ++ c :: right ∧
      before = above.flatMap Row.chars ++ left ∧ before.count '\n' = above.length := by
  induction rows generalizing before with
  | nil => simp at htext
  | cons row rows ih =>
    obtain ⟨hrows, hinside, hend⟩ := h.of_cons
    rw [List.flatMap_cons] at htext
    -- the character stands in one of the later rows
    have hlater (behind : List Char) (hbefore : before = row.chars ++ behind)
        (hrest : rows.flatMap Row.chars = behind ++ c :: after) :
        ∃ above row' below left right, row :: rows = above ++ row' :: below ∧
          row'.chars = left ++ c :: right ∧ before = above.flatMap Row.chars ++ left ∧
          before.count '\n' = above.length := by
      have hcount : row.chars.count '\n' = 1 := hend.resolve_left (by rintro rfl; simp at hrest)
      obtain ⟨above, row', below, left, right, rfl, hchars, rfl, hfeeds⟩ := ih hrows hrest
      refine ⟨row :: above, row', below, left, right, rfl, hchars, by simp [hbefore], ?_⟩
      rw [hbefore, List.count_append, hcount, hfeeds, List.length_cons, Nat.add_comm]
    rcases List.append_eq_append_iff.mp htext with ⟨behind, hbefore, hrest⟩ | ⟨inside, hchars, hrest⟩
    · exact hlater behind hbefore hrest
    · cases inside with
      | nil => exact hlater [] (by simpa using hchars.symm) (by simpa using hrest.symm)
      | cons d inside =>
        obtain ⟨rfl, -⟩ := List.cons_eq_cons.mp hrest
        refine ⟨[], row, rows, before, inside, rfl, hchars, rfl, ?_⟩
        refine List.count_eq_zero.mpr fun hmem => hinside ?_
        rw [hchars, List.dropLast_append_cons]
        exact List.mem_append_left _ hmem

end CodeSurvey.Text
