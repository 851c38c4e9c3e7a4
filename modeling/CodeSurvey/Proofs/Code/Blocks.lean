import CodeSurvey.Code.CodeLine
import CodeSurvey.Proofs.Text.Occurrence

/-!
# Where blocks end

The reader of blocks goes through line after line, counts braces and may stop early at a semicolon or
an arrow. What it knows is told by the text that it has read (`BlockState.after`). So, on lines where a
brace comes first, a block ends on the first line up to which as many braces are closed as opened.
-/

namespace CodeSurvey.Code

namespace BlockState

/-- A block has been open, and as many braces are closed as opened. -/
def Done (b : BlockState) : Prop := b.opened = true ∧ b.depth ≤ 0

instance (b : BlockState) : Decidable b.Done :=
  inferInstanceAs (Decidable (b.opened = true ∧ b.depth ≤ 0))

/-- What is known of a block when a further text is read to its end. -/
def after (b : BlockState) (cs : List Char) : BlockState where
  depth := b.depth + (cs.count '\x7b' - cs.count '\x7d')
  opened := b.opened || cs.contains '\x7b'

@[simp] theorem after_nil (b : BlockState) : b.after [] = b := by simp [after]

theorem after_append (b : BlockState) (cs ds : List Char) :
    b.after (cs ++ ds) = (b.after cs).after ds := by
  simp only [after, List.count_append, List.contains_append, Bool.or_assoc, mk.injEq, and_true]
  omega

/-- A text is read to its end where a brace is open or comes before the first semicolon. -/
theorem read_eq_after {b : BlockState} {cs : List Char}
    (h : b.opened = true ∨ ';' ∉ cs.takeWhile (· != '\x7b')) : b.read cs = some (b.after cs) := by
  fun_induction read b cs with
  | case1 b => rw [after_nil]
  | case2 b cs ih =>
    rw [ih (.inl rfl)]
    simp [after]
    omega
  | case3 b cs ih =>
    rw [ih (h.imp_right (by simp))]
    simp [after]
    omega
  | case4 b cs hends => simp_all
  | case5 b cs hends ih =>
    rw [ih (h.imp_right (by simp))]
    simp [after]
  | case6 b c cs hopen hclose hsemicolon ih =>
    have hother : c ≠ '\x7b' ∧ c ≠ '\x7d' := ⟨hopen, hclose⟩
    rw [ih (h.imp_right (by simp [hother.1]))]
    simp [after, List.count_cons_of_ne, hother, hother.1.symm]

end BlockState

def charsOf (ls : List String) : List Char := ls.flatMap String.toList

/-- Lines on which a brace comes first: no semicolon stands before the first opening brace, and no
arrow on a line before the line of this brace. -/
structure BraceFirst (ls : List String) : Prop where
  semicolon : ';' ∉ (charsOf ls).takeWhile (· != '\x7b')
  arrow : ∀ l ∈ ls.takeWhile fun l => !l.toList.contains '\x7b', ¬ Text.Occurs "=>" l

/-- Lines with an opening brace, and with as many closing braces at least. -/
def Closed (ls : List String) : Prop :=
  '\x7b' ∈ charsOf ls ∧ (charsOf ls).count '\x7b' ≤ (charsOf ls).count '\x7d'

theorem closed_iff {ls : List String} :
    Closed ls ↔ (({} : BlockState).after (charsOf ls)).Done := by
  simp [BlockState.Done, BlockState.after, Closed]

variable {b : BlockState} {last : Nat} {line : String} {ls : List String}

/-- Behind a line without an opening brace, a brace still comes first. -/
theorem BraceFirst.tail (h : BraceFirst (line :: ls)) (hline : '\x7b' ∉ line.toList) :
    BraceFirst ls := by
  have hbefore : ∀ c ∈ line.toList, (c != '\x7b') = true := fun c hc =>
    bne_iff_ne.mpr fun heq => hline (heq ▸ hc)
  refine ⟨fun hmem => h.semicolon ?_, fun l hl => h.arrow l ?_⟩
  · rw [charsOf, List.flatMap_cons, List.takeWhile_append_of_pos hbefore]
    exact List.mem_append_right _ hmem
  · rw [List.takeWhile_cons_of_pos (by simpa using hline)]
    exact List.mem_cons_of_mem _ hl

/-- A line that is read to its end, with no arrow before the first brace. -/
theorem blockEndFrom_cons (h : b.opened = true ∨ BraceFirst (line :: ls)) (i : Nat) :
    blockEndFrom last b (line :: ls) i =
      if (b.after line.toList).Done then i
      else blockEndFrom last (b.after line.toList) ls (i + 1) := by
  have hread : b.read line.toList = some (b.after line.toList) := by
    refine BlockState.read_eq_after (h.imp_right fun h hmem => h.semicolon ?_)
    rw [charsOf, List.flatMap_cons, List.takeWhile_append]
    split
    · exact List.mem_append_left _ ((List.takeWhile_prefix _).subset hmem)
    · exact hmem
  have harrow : (!(b.after line.toList).opened && Text.contains "=>" line) = false := by
    by_contra hends
    simp only [Bool.not_eq_false, Bool.and_eq_true, Bool.not_eq_true', BlockState.after,
      Bool.or_eq_false_iff, Text.contains_iff_occurs] at hends
    obtain ⟨⟨hopened, hline⟩, hoccurs⟩ := hends
    refine (h.resolve_left (by simp [hopened])).arrow line ?_ hoccurs
    rw [List.takeWhile_cons_of_pos (by simpa using hline)]
    exact List.mem_cons_self
  simp only [blockEndFrom, hread, harrow, Bool.false_eq_true, if_false]
  exact if_congr (by simp [BlockState.Done]) rfl rfl

/-- A block ends on the lines that are read, whatever stands on them. -/
theorem blockEndFrom_bounds {i : Nat} (h : i + ls.length ≤ last + 1) :
    min i last ≤ blockEndFrom last b ls i ∧ blockEndFrom last b ls i ≤ last := by
  fun_induction blockEndFrom last b ls i with
  | case1 => simp
  | case6 _ _ _ _ _ _ _ _ ih =>
    have hrest := ih (by simp at h; omega)
    omega
  | case2 | case3 | case4 | case5 => simp at h; omega

/-- Where a brace is open or comes first, a block ends on the first line up to which it is done. -/
theorem blockEndFrom_first (h : b.opened = true ∨ BraceFirst ls) (i : Nat) :
    (∃ k < ls.length, blockEndFrom last b ls i = i + k ∧
        (b.after (charsOf (ls.take (k + 1)))).Done ∧
        ∀ j < k, ¬ (b.after (charsOf (ls.take (j + 1)))).Done) ∨
      blockEndFrom last b ls i = last ∧
        ∀ j < ls.length, ¬ (b.after (charsOf (ls.take (j + 1)))).Done := by
  induction ls generalizing b i with
  | nil => exact .inr ⟨rfl, by simp⟩
  | cons line ls ih =>
    have hafter (k : Nat) : b.after (charsOf ((line :: ls).take (k + 1))) =
        (b.after line.toList).after (charsOf (ls.take k)) := BlockState.after_append b _ _
    simp only [hafter]
    rw [blockEndFrom_cons h]
    generalize hb : b.after line.toList = b' at ih ⊢
    split
    · next hdone => exact .inl ⟨0, by simp, rfl, by simpa [charsOf] using hdone, by simp⟩
    · next hdone =>
      have hrest : b'.opened = true ∨ BraceFirst ls := by
        by_cases hline : '\x7b' ∈ line.toList
        · exact .inl (by simp [← hb, BlockState.after, hline])
        · exact h.imp (fun h => by simp [← hb, BlockState.after, h]) (·.tail hline)
      -- the lines behind the first are counted from the next index on
      have hshift {n : Nat} (hn : ∀ j < n, ¬ (b'.after (charsOf (ls.take (j + 1)))).Done) :
          ∀ j < n + 1, ¬ (b'.after (charsOf (ls.take j))).Done := by
        rintro (_ | j) hj
        · simpa [charsOf] using hdone
        · exact hn j (Nat.lt_of_succ_lt_succ hj)
      rcases ih hrest (i + 1) with ⟨k, hk, heq, hend, hbefore⟩ | ⟨heq, hnone⟩
      · exact .inl ⟨k + 1, Nat.succ_lt_succ hk, by omega, hend, hshift hbefore⟩
      · exact .inr ⟨heq, hshift hnone⟩

/-- A block ends between its start and the last line. Where a brace comes first, it ends on the first
line up to which there is an opening brace and as many are closed as opened, and on the last line when
there is none. -/
theorem blockEnd_isLeast (lines : List String) (start : Nat) (h : start < lines.length) :
    (start ≤ blockEnd lines start ∧ blockEnd lines start < lines.length) ∧
      (BraceFirst (lines.drop start) →
        IsLeast {i | start ≤ i ∧ i < lines.length ∧
            Closed ((lines.drop start).take (i + 1 - start))} (blockEnd lines start) ∨
          blockEnd lines start = lines.length - 1 ∧ ∀ i, start ≤ i → i < lines.length →
            ¬ Closed ((lines.drop start).take (i + 1 - start))) := by
  have hlength : (lines.drop start).length = lines.length - start := List.length_drop
  refine ⟨?_, fun hfirst => ?_⟩
  · have hbounds := @blockEndFrom_bounds {} (lines.length - 1) (lines.drop start) start (by omega)
    rw [blockEnd]
    omega
  · have hclosed {i : Nat} (hi : start ≤ i) : Closed ((lines.drop start).take (i + 1 - start)) ↔
        (({} : BlockState).after (charsOf ((lines.drop start).take (i - start + 1)))).Done := by
      rw [closed_iff, Nat.sub_add_comm hi]
    rcases @blockEndFrom_first {} (lines.length - 1) _ (.inr hfirst) start with
      ⟨k, hk, heq, hend, hbefore⟩ | ⟨heq, hnone⟩
    · rw [blockEnd, heq]
      have hstart := Nat.le_add_right start k
      refine .inl ⟨⟨hstart, by omega, (hclosed hstart).mpr ?_⟩, ?_⟩
      · rwa [Nat.add_sub_cancel_left]
      · rintro i ⟨hi, -, hend⟩
        by_contra hlt
        exact hbefore (i - start) (by omega) ((hclosed hi).mp hend)
    · exact .inr ⟨heq, fun i hi hlast hend => hnone _ (by omega) ((hclosed hi).mp hend)⟩

/-- A brace is closed before the first one opens, on a line with an arrow. -/
theorem blockEnd_isLeast_stray :
    BraceFirst ["\x7d", "f() => \x7b", "\x7d"] ∧ blockEnd ["x;", "\x7d", "f() => \x7b", "\x7d"] 1 = 2 ∧
      IsLeast {i | 1 ≤ i ∧ i < 4 ∧ Closed (["\x7d", "f() => \x7b", "\x7d"].take (i + 1 - 1))} 2 := by
  have hfirst : BraceFirst ["\x7d", "f() => \x7b", "\x7d"] := ⟨by decide, by decide⟩
  have hend : blockEnd ["x;", "\x7d", "f() => \x7b", "\x7d"] 1 = 2 := by decide
  have hleast := (blockEnd_isLeast ["x;", "\x7d", "f() => \x7b", "\x7d"] 1 (by decide)).2 hfirst
  rw [hend] at hleast
  exact ⟨hfirst, hend, hleast.resolve_right fun h => absurd h.1 (by decide)⟩

end CodeSurvey.Code
