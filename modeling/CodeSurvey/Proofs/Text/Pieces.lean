import CodeSurvey.Proofs.Text.Occurrence
import CodeSurvey.Proofs.Text.Rows
import CodeSurvey.Proofs.Text.Trim
import CodeSurvey.Text.Utf8

/-!
# Pieces of a text

Trimming a text, cutting it at a character or a byte offset and taking one of its lines all leave a
piece of it, so that whatever occurs in the piece occurs in the text. A text that has no line feed in
it and occurs in lines put together occurs in one of the lines.
-/

namespace CodeSurvey.Text

theorem Occurs.trans {p q s : String} (hp : Occurs p q) (hq : Occurs q s) : Occurs p s :=
  List.IsInfix.trans hp hq

theorem occurs_of_endsWith {p s : String} (h : endsWith p s = true) : Occurs p s :=
  (List.isSuffixOf_iff_suffix.mp h).isInfix

theorem occurs_of_afterStart? {p s rest : String} (h : afterStart? p s = some rest) :
    Occurs p s := by
  rw [afterStart?_eq_some_iff] at h
  exact ⟨[], rest.toList, h.symm⟩

/-! ## Texts cut short -/

theorem occurs_trimWhere (p : Char → Bool) (s : String) : Occurs (trimWhere p s) s := by
  rw [Occurs, toList_trimWhere]
  exact (List.rdropWhile_prefix p _).isInfix.trans (List.dropWhile_suffix p).isInfix

theorem occurs_beforeFirst (p : Char → Bool) (s : String) : Occurs (beforeFirst p s) s := by
  rw [Occurs, beforeFirst, String.toList_ofList]
  exact (List.takeWhile_prefix _).isInfix

theorem occurs_afterLast (c : Char) (s : String) : Occurs (afterLast c s) s := by
  rw [Occurs, afterLast, String.toList_ofList, ← List.reverse_infix, List.reverse_reverse]
  exact (List.takeWhile_prefix _).isInfix

theorem occurs_withoutEnd (p s : String) : Occurs (withoutEnd p s) s := by
  rw [withoutEnd]
  cases h : beforeEnd? p s with
  | none => exact List.infix_refl _
  | some front =>
    obtain ⟨cs, hcs, rfl⟩ := Option.map_eq_some_iff.mp h
    rw [afterChars?_eq_some_iff] at hcs
    rw [Option.getD_some, Occurs, String.toList_ofList, ← List.reverse_infix,
      List.reverse_reverse, hcs]
    exact (List.suffix_append _ cs).isInfix

/-! ## Texts between byte offsets -/

theorem suffix_dropBytes (n : Nat) (cs : List Char) : dropBytes n cs <:+ cs := by
  fun_induction dropBytes n cs with
  | case1 cs => exact List.suffix_refl cs
  | case2 n => exact List.suffix_refl []
  | case3 n c cs ih => exact ih.trans (List.suffix_cons c cs)

theorem prefix_takeBytes (n : Nat) (cs : List Char) : takeBytes n cs <+: cs := by
  fun_induction takeBytes n cs with
  | case1 n => exact List.prefix_refl []
  | case2 n c cs hfits ih => exact List.prefix_cons_inj c |>.mpr ih
  | case3 n c cs hcut => exact List.nil_prefix

theorem occurs_byteSlice (start stop : Nat) (s : String) : Occurs (byteSlice start stop s) s := by
  rw [Occurs, byteSlice, String.toList_ofList]
  exact (prefix_takeBytes _ _).isInfix.trans (suffix_dropBytes start s.toList).isInfix

theorem byteLength_cons (c : Char) (cs : List Char) :
    byteLength (c :: cs) = c.utf8Size + byteLength cs := rfl

theorem byteLength_append (xs ys : List Char) :
    byteLength (xs ++ ys) = byteLength xs + byteLength ys := by
  induction xs with
  | nil => exact (Nat.zero_add _).symm
  | cons c xs ih => rw [List.cons_append, byteLength_cons, byteLength_cons, ih, Nat.add_assoc]

theorem dropBytes_byteLength_append (xs ys : List Char) :
    dropBytes (byteLength xs) (xs ++ ys) = ys := by
  induction xs with
  | nil => exact dropBytes.eq_1 ys
  | cons c xs ih =>
    have hpos : byteLength (c :: xs) ≠ 0 := by
      rw [byteLength_cons]
      exact Nat.ne_of_gt (Nat.add_pos_left c.utf8Size_pos _)
    obtain ⟨n, hn⟩ := Nat.exists_eq_succ_of_ne_zero hpos
    have hrest : n + 1 - c.utf8Size = byteLength xs := by
      rw [← Nat.succ_eq_add_one, ← hn, byteLength_cons, Nat.add_sub_cancel_left]
    rw [hn, List.cons_append, dropBytes, hrest, ih]

theorem takeBytes_byteLength_append (xs ys : List Char) :
    takeBytes (byteLength xs) (xs ++ ys) = xs := by
  induction xs with
  | nil =>
    cases ys with
    | nil => rfl
    | cons y ys => exact if_neg (Nat.not_le.mpr y.utf8Size_pos)
  | cons c xs ih =>
    rw [List.cons_append, takeBytes, byteLength_cons, if_pos (Nat.le_add_right _ _),
      Nat.add_sub_cancel_left, ih]

/-! ## Lines -/

theorem prefix_dropReturn (line : List Char) : dropReturn line <+: line := by
  rw [dropReturn]
  split
  · exact List.dropLast_prefix line
  · exact List.prefix_refl line

theorem occurs_of_mem_lines {line s : String} (h : line ∈ lines s) : Occurs line s := by
  obtain ⟨rows, -, hchars, hlines⟩ := exists_rows s
  rw [← hlines] at h
  obtain ⟨row, hrow, rfl⟩ := List.mem_map.mp h
  rw [Occurs, String.toList_ofList, ← hchars]
  exact (List.prefix_append row.line row.ending).isInfix.trans
    (List.infix_of_mem_flatten (List.mem_map_of_mem hrow))

/-- A piece without `c` stands on one side of it. -/
theorem infix_or_infix_of_not_mem {α : Type} {c : α} {p a b : List α} (hp : c ∉ p)
    (h : p <:+: a ++ c :: b) : p <:+: a ∨ p <:+: b := by
  rcases List.infix_append_iff.mp h with ha | hb | ⟨front, back, rfl, hfront, hback⟩
  · exact .inl ha
  · rcases List.infix_cons_iff.mp hb with hstart | hb
    · cases p with
      | nil => exact .inl List.nil_infix
      | cons x p =>
        obtain rfl := (List.cons_prefix_cons.mp hstart).1
        exact absurd List.mem_cons_self hp
    · exact .inr hb
  · cases back with
    | nil =>
      rw [List.append_nil]
      exact .inl hfront.isInfix
    | cons x back =>
      obtain rfl := (List.cons_prefix_cons.mp hback).1
      exact absurd (List.mem_append_right front List.mem_cons_self) hp

/-- A text without a line feed that occurs in lines put together occurs in one of them. -/
theorem exists_line_of_occurs_joinLines {word : String} {ls : List String} (hne : word ≠ "")
    (hword : '\n' ∉ word.toList) (h : Occurs word (joinLines ls)) : ∃ l ∈ ls, Occurs word l := by
  rw [Occurs, joinLines, String.toList_intercalate] at h
  induction ls with
  | nil =>
    have hnil : word.toList = [] := List.infix_nil.mp h
    exact absurd (String.toList_eq_nil_iff.mp hnil) hne
  | cons l ls ih =>
    cases ls with
    | nil => exact ⟨l, List.mem_singleton_self l, by simpa [Occurs] using h⟩
    | cons l' ls =>
      rw [List.map_cons, List.map_cons, List.intercalate_cons_cons, List.append_assoc] at h
      rcases infix_or_infix_of_not_mem hword h with hl | hrest
      · exact ⟨l, List.mem_cons_self, hl⟩
      · obtain ⟨m, hm, hoccurs⟩ := ih hrest
        exact ⟨m, List.mem_cons_of_mem l hm, hoccurs⟩

end CodeSurvey.Text
