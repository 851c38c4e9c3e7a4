import CodeSurvey.Proofs.Text.Pieces

/-!
# Line numbers of byte offsets

The line at a byte offset is counted over the bytes before it or over the characters before it. Both give
one number, as the byte of a line feed stands in no other character, and the line of this number is the one
that the character at the offset stands in.
-/

namespace CodeSurvey.Text

/-- The byte of a line feed stands in no other character. -/
theorem count_utf8EncodeChar (c : Char) :
    (String.utf8EncodeChar c).count 0x0A = if c = '\n' then 1 else 0 := by
  split
  · next hc =>
    rw [hc]
    rfl
  · next hc =>
    have hcode : c.val.toNat ≠ 10 := fun h => hc (Char.ext (UInt32.toNat_inj.mp h))
    have hbyte {n : Nat} (h : n % 256 ≠ 10) : (0x0A : UInt8) ≠ UInt8.ofNat n := fun heq =>
      h (by simpa using congrArg UInt8.toNat heq.symm)
    rw [List.count_eq_zero, String.utf8EncodeChar]
    split_ifs <;> simp only [List.mem_cons, List.not_mem_nil, or_false, not_or] <;>
      repeat' constructor
    all_goals exact hbyte (by omega)

theorem count_take_encode (s : String) (n : Nat) :
    ((encode s).take n).count 0x0A = (takeBytes n s.toList).count '\n' := by
  unfold encode
  fun_induction takeBytes n s.toList with
  | case1 => simp
  | case2 n c cs hfits ih =>
    rw [List.flatMap_cons, List.take_append, String.length_utf8EncodeChar,
      List.take_of_length_le (by simpa using hfits), List.count_append, ih, count_utf8EncodeChar,
      List.count_cons]
    simp
    omega
  | case3 n c cs hcut =>
    rw [List.flatMap_cons, List.take_append_of_le_length (by simp; omega), List.count_nil,
      List.count_eq_zero]
    -- a line feed is one byte and is not cut in two
    intro hmem
    have hcount := List.count_pos_iff.mpr (List.mem_of_mem_take hmem)
    rw [count_utf8EncodeChar] at hcount
    have hc : c = '\n' := by
      by_contra hc
      exact absurd hcount (by simp [hc])
    have hzero : n = 0 := by
      rw [hc] at hcut
      exact Nat.lt_one_iff.mp (Nat.not_le.mp hcut)
    simp [hzero] at hmem

theorem lineOfOffset_eq (s : String) (offset : Nat) :
    lineOfOffset s offset = lineAfter (takeBytes offset s.toList) :=
  congrArg (· + 1) (count_take_encode s offset)

theorem lineOfOffset_byteLength {s : String} {before after : List Char}
    (h : s.toList = before ++ after) :
    lineOfOffset s (byteLength before) = lineAfter before := by
  rw [lineOfOffset_eq, h, takeBytes_byteLength_append]

theorem lineOfOffset_mono (s : String) : Monotone (lineOfOffset s) := fun _ _ h =>
  Nat.succ_le_succ ((List.take_sublist_take_left h).count_le 0x0A)

theorem isBoundary_byteLength (before after : List Char) :
    isBoundary (byteLength before) (before ++ after) = true := by
  induction before with
  | nil => exact isBoundary.eq_1 after
  | cons c before ih =>
    obtain ⟨n, hn⟩ := Nat.exists_eq_succ_of_ne_zero
      (Nat.ne_of_gt (Nat.add_pos_left c.utf8Size_pos (byteLength before)))
    rw [byteLength_cons, hn, List.cons_append, isBoundary, ← Nat.succ_eq_add_one, ← hn,
      Nat.add_sub_cancel_left, ih]
    simp

theorem byteLength_toList (s : String) : byteLength s.toList = s.utf8ByteSize := by
  have hlen (cs : List Char) : byteLength cs = String.utf8Len cs := by
    induction cs with
    | nil => rfl
    | cons c cs ih => rw [byteLength_cons, ih, String.utf8Len_cons, Nat.add_comm]
  rw [hlen, ← String.utf8ByteSize_ofList, String.ofList_toList]

theorem exists_split_of_isValid {s : String} {o : Nat} (h : (⟨o⟩ : String.Pos.Raw).IsValid s) :
    ∃ before after, s.toList = before ++ after ∧ byteLength before = o := by
  obtain ⟨front, back, rfl, ho⟩ := String.Pos.Raw.isValid_iff_exists_append.mp h
  refine ⟨front.toList, back.toList, String.toList_append, ?_⟩
  rw [byteLength_toList]
  exact (congrArg String.Pos.Raw.byteIdx ho).symm

/-- The numbers counted over bytes and over characters are the same, also for the start of a match, and they
never fall. The number at a byte of the text is the number of one of its lines: the line with the character
that stands there, in it or among the characters that end it. -/
theorem lineOfOffset_agrees (s : String) :
    (∀ o, (⟨o⟩ : String.Pos.Raw).IsValid s ∨ s.utf8ByteSize ≤ o →
        lineAtBoundary? s o = some (lineOfOffset s o)) ∧
      (∀ i, lineOfIndex s i = lineOfOffset s (byteLength (s.toList.take i))) ∧
      Monotone (lineOfOffset s) ∧
      ∃ rows, Ruled rows ∧ rows.flatMap Row.chars = s.toList ∧
        rows.map (fun r => String.ofList r.line) = lines s ∧
        ∀ o, (⟨o⟩ : String.Pos.Raw).IsValid s → o < s.utf8ByteSize →
          (1 ≤ lineOfOffset s o ∧ lineOfOffset s o ≤ (lines s).length) ∧
            ∃ above row below left c right, rows = above ++ row :: below ∧
              above.length + 1 = lineOfOffset s o ∧ row.chars = left ++ c :: right ∧
              byteLength (above.flatMap Row.chars ++ left) = o := by
  refine ⟨fun o ho => ?_, fun i => ?_, lineOfOffset_mono s, ?_⟩
  · have hboundary : isBoundary (min o (byteLength s.toList)) s.toList = true := by
      rcases ho with hvalid | hbeyond
      · obtain ⟨before, after, htext, rfl⟩ := exists_split_of_isValid hvalid
        rw [htext, byteLength_append, Nat.min_eq_left (Nat.le_add_right _ _)]
        exact isBoundary_byteLength before after
      · rw [byteLength_toList, Nat.min_eq_right hbeyond, ← byteLength_toList]
        simpa using isBoundary_byteLength s.toList []
    rw [lineAtBoundary?, if_pos hboundary, lineOfOffset_eq]
  · exact (lineOfOffset_byteLength (List.take_append_drop i s.toList).symm).symm
  · obtain ⟨rows, hruled, hchars, hlines⟩ := exists_rows s
    refine ⟨rows, hruled, hchars, hlines, fun o hvalid ho => ?_⟩
    obtain ⟨before, after, htext, rfl⟩ := exists_split_of_isValid hvalid
    obtain _ | ⟨c, after⟩ := after
    · rw [← byteLength_toList, htext, List.append_nil] at ho
      exact absurd ho (Nat.lt_irrefl _)
    · obtain ⟨above, row, below, left, right, hrows, hrow, hbefore, hcount⟩ :=
        hruled.exists_row (hchars.trans htext)
      have hnumber : above.length + 1 = lineOfOffset s (byteLength before) := by
        rw [lineOfOffset_byteLength htext, lineAfter, hcount]
      refine ⟨⟨Nat.le_add_left _ _, ?_⟩, above, row, below, left, c, right, hrows, hnumber, hrow,
        by rw [hbefore]⟩
      rw [← hnumber, ← hlines, hrows]
      simp

/-- The carriage return of a line end behind a character of two bytes, and an offset beyond the end. -/
theorem lineOfOffset_agrees_returned :
    (⟨2⟩ : String.Pos.Raw).IsValid "é\r\nb" ∧ "é\r\nb".utf8ByteSize = 5 ∧
      lineAtBoundary? "é\r\nb" 2 = some 1 ∧ lineAtBoundary? "é\r\nb" 9 = some 2 ∧
      (1 ≤ lineOfOffset "é\r\nb" 2 ∧ lineOfOffset "é\r\nb" 2 ≤ (lines "é\r\nb").length) := by
  have hvalid : (⟨2⟩ : String.Pos.Raw).IsValid "é\r\nb" :=
    String.Pos.Raw.isValid_iff_exists_append.mpr ⟨"é", "\r\nb", rfl, rfl⟩
  obtain ⟨hagree, -, -, rows, -, -, -, hline⟩ := lineOfOffset_agrees "é\r\nb"
  exact ⟨hvalid, rfl, hagree 2 (.inl hvalid), hagree 9 (.inr (by decide)), (hline 2 hvalid (by decide)).1⟩

end CodeSurvey.Text
