import CodeSurvey.Proofs.Text.Pieces

/-!
# Cutting characters off the start of lines

Lines that are each ended by a line feed are read back as they are if no line feed stands in them
and none ends with a carriage return. With characters cut off the start, what is read back are the
ends of consecutive lines: as many lines are missing as line feeds were cut off.
-/

namespace CodeSurvey

namespace Text

/-- The line has no line feed in it and does not end with a carriage return. -/
def Tidy (line : List Char) : Prop := '\n' ∉ line ∧ line.getLast? ≠ some '\r'

theorem Tidy.of_suffix {line piece : List Char} (h : Tidy line) (hpiece : piece <:+ line) :
    Tidy piece := by
  refine ⟨fun hmem => h.1 (hpiece.subset hmem), fun hlast => ?_⟩
  obtain ⟨front, rfl⟩ := hpiece
  exact h.2 (by rw [List.getLast?_append, hlast]; rfl)

/-- Lines with a line feed after each of them. -/
def ended (ls : List String) : List Char := ls.flatMap fun l => l.toList ++ ['\n']

theorem ended_cons (l : String) (ls : List String) :
    ended (l :: ls) = l.toList ++ '\n' :: ended ls := by
  simp [ended]

theorem toList_join_ended (ls : List String) :
    (String.join (ls.map (· ++ "\n"))).toList = ended ls := by
  simp [ended, String.toList_join, List.flatMap_map]

theorem linesOf_break {line : List Char} (h : '\n' ∉ line) (pending rest : List Char) :
    linesOf pending (line ++ '\n' :: rest) =
      dropReturn (pending.reverse ++ line) :: linesOf [] rest := by
  induction line generalizing pending with
  | nil => simp [linesOf]
  | cons c line ih =>
    obtain ⟨hc, hline⟩ := List.ne_and_not_mem_of_not_mem_cons h
    rw [List.cons_append, linesOf, if_neg (Ne.symm hc), ih hline, List.reverse_cons,
      List.append_assoc, List.singleton_append]

theorem linesOf_ended {ls : List String} (h : ∀ l ∈ ls, Tidy l.toList) :
    linesOf [] (ended ls) = ls.map String.toList := by
  induction ls with
  | nil => rfl
  | cons l ls ih =>
    obtain ⟨hl, hls⟩ := List.forall_mem_cons.mp h
    have hkeep : dropReturn l.toList = l.toList := if_neg hl.2
    rw [ended_cons, linesOf_break hl.1, List.reverse_nil, List.nil_append, hkeep, ih hls,
      List.map_cons]

/-- What is left of lines when some characters are cut off the start. -/
def restLines : Nat → List String → List String
  | _, [] => []
  | n, l :: ls =>
    if n ≤ l.toList.length then drop n l :: ls else restLines (n - (l.toList.length + 1)) ls

/-- Line feeds among the first characters. -/
def breaksWithin (n : Nat) (ls : List String) : Nat := ((ended ls).take n).count '\n'

theorem drop_ended (n : Nat) (ls : List String) : (ended ls).drop n = ended (restLines n ls) := by
  fun_induction restLines n ls with
  | case1 n => simp [ended]
  | case2 n l ls hn =>
    rw [ended_cons, ended_cons, List.drop_append_of_le_length hn, drop, String.toList_ofList]
  | case3 n l ls hn ih =>
    -- the whole line is cut off, and the line feed after it
    have hskip : n = l.toList.length + ((n - (l.toList.length + 1)) + 1) := by omega
    rw [ended_cons, ← ih]
    conv_lhs => rw [hskip]
    rw [List.drop_length_add_append, List.drop_succ_cons]

/-- The first characters have as many line feeds as lines come to an end in them. -/
theorem breaksWithin_cons {l : String} (h : '\n' ∉ l.toList) (n : Nat) (ls : List String) :
    breaksWithin n (l :: ls) =
      if n ≤ l.toList.length then 0 else breaksWithin (n - (l.toList.length + 1)) ls + 1 := by
  rw [breaksWithin, ended_cons]
  split
  · next hn =>
    rw [List.take_append_of_le_length hn, List.count_eq_zero]
    exact fun hmem => h (List.mem_of_mem_take hmem)
  · next hn =>
    have hskip : n = l.toList.length + ((n - (l.toList.length + 1)) + 1) := by omega
    conv_lhs => rw [hskip]
    rw [List.take_length_add_append, List.take_succ_cons, List.count_append, List.count_cons_self,
      List.count_eq_zero.mpr h, Nat.zero_add]
    rfl

/-- What is left are ends of consecutive lines, from the one on in which the cut lies. -/
theorem exists_line_of_restLines {ls : List String} (h : ∀ l ∈ ls, '\n' ∉ l.toList) {n i : Nat}
    {piece : String} (hpiece : (restLines n ls)[i]? = some piece) :
    ∃ line, ls[breaksWithin n ls + i]? = some line ∧ piece.toList <:+ line.toList := by
  fun_induction restLines n ls with
  | case1 n => cases hpiece
  | case2 n l ls hn =>
    obtain ⟨hl, hls⟩ := List.forall_mem_cons.mp h
    rw [breaksWithin_cons hl, if_pos hn, Nat.zero_add]
    cases i with
    | zero =>
      obtain rfl := Option.some.inj hpiece
      refine ⟨l, rfl, ?_⟩
      rw [drop, String.toList_ofList]
      exact List.drop_suffix n _
    | succ i => exact ⟨piece, hpiece, List.suffix_refl _⟩
  | case3 n l ls hn ih =>
    obtain ⟨hl, hls⟩ := List.forall_mem_cons.mp h
    rw [breaksWithin_cons hl, if_neg hn, Nat.add_right_comm]
    exact ih hls hpiece

theorem tidy_restLines {ls : List String} (h : ∀ l ∈ ls, Tidy l.toList) (n : Nat) :
    ∀ piece ∈ restLines n ls, Tidy piece.toList := by
  fun_induction restLines n ls with
  | case1 n => simp
  | case2 n l ls hn =>
    obtain ⟨hl, hls⟩ := List.forall_mem_cons.mp h
    refine List.forall_mem_cons.mpr ⟨hl.of_suffix ?_, hls⟩
    rw [drop, String.toList_ofList]
    exact List.drop_suffix n _
  | case3 n l ls hn ih => exact ih (List.forall_mem_cons.mp h).2

/-- The lines of a text with characters cut off its start. -/
theorem lines_drop_ended {ls : List String} (h : ∀ l ∈ ls, Tidy l.toList) (n : Nat) :
    lines (drop n (String.join (ls.map (· ++ "\n")))) = restLines n ls := by
  rw [lines, drop, toList_join_ended, String.toList_ofList, drop_ended,
    linesOf_ended (tidy_restLines h n), List.map_map]
  exact (List.map_congr_left fun l _ => String.ofList_toList).trans (List.map_id _)

theorem newline_not_mem_of_mem_lines {s line : String} (h : line ∈ lines s) :
    '\n' ∉ line.toList := by
  obtain ⟨rows, hruled, -, hlines⟩ := exists_rows s
  rw [← hlines] at h
  obtain ⟨row, hrow, rfl⟩ := List.mem_map.mp h
  rw [String.toList_ofList]
  exact hruled.newline_not_mem hrow

/-- What is found in a text begins in it. -/
theorem le_of_findChars? {p cs : List Char} {i j : Nat} (h : findChars? p cs i = some j) :
    j ≤ i + cs.length := by
  fun_induction findChars? p cs i with
  | case1 i hp =>
    cases h
    exact Nat.le_add_right _ _
  | case2 i hp => cases h
  | case3 c cs i hp =>
    cases h
    exact Nat.le_add_right _ _
  | case4 c cs i hp ih =>
    have hle := ih h
    rw [List.length_cons]
    omega

end Text

end CodeSurvey
