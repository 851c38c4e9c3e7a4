import CodeSurvey.Code.QuotedName
import Mathlib

/-!
# Where a quoted name stands

The line of a name is that of the first place from a position on where the name stands between
quotes, whatever it stands there for. From the start of a source on this is the least of all lines
with the quoted name. A name with a single place is found from any position up to this place, and
not found from any position behind its start.
-/

namespace CodeSurvey

namespace Text

/-- A text stands in another one at an index. -/
def StandsAt (p s : String) (i : Nat) : Prop := p.toList <+: s.toList.drop i

instance (p s : String) (i : Nat) : Decidable (StandsAt p s i) :=
  inferInstanceAs (Decidable (p.toList <+: s.toList.drop i))

/-- A text that is not empty stands before the end. -/
theorem StandsAt.lt_length {p s : String} {i : Nat} (h : StandsAt p s i) (hp : p.toList ≠ []) :
    i < s.length := by
  have hle := h.length_le
  have hpos := List.length_pos_of_ne_nil hp
  rw [List.length_drop] at hle
  rw [← String.length_toList]
  omega

theorem findChars?_of_first {p cs : List Char} {n : Nat} (h : p <+: cs.drop n)
    (hfirst : ∀ m < n, ¬ p <+: cs.drop m) (start : Nat) :
    findChars? p cs start = some (start + n) := by
  induction n generalizing cs start with
  | zero =>
    cases cs with
    | nil => simp [findChars?, List.prefix_nil.mp h]
    | cons c cs =>
      have hhere : p <+: c :: cs := h
      rw [findChars?, if_pos (List.isPrefixOf_iff_prefix.mpr hhere), Nat.add_zero]
  | succ n ih =>
    have hnot : ¬ p <+: cs := hfirst 0 (Nat.zero_lt_succ n)
    cases cs with
    | nil => exact absurd h hnot
    | cons c cs =>
      rw [findChars?, if_neg (mt List.isPrefixOf_iff_prefix.mp hnot), ih h, Nat.add_assoc,
        Nat.add_comm 1]
      intro m hm
      exact hfirst (m + 1) (Nat.succ_lt_succ hm)

theorem findChars?_eq_none {p cs : List Char} (h : ∀ n, ¬ p <+: cs.drop n) (start : Nat) :
    findChars? p cs start = none := by
  induction cs generalizing start with
  | nil =>
    have hp : p ≠ [] := by
      rintro rfl
      exact h 0 List.nil_prefix
    simpa [findChars?] using hp
  | cons c cs ih =>
    have hnot : ¬ p <+: c :: cs := h 0
    rw [findChars?, if_neg (mt List.isPrefixOf_iff_prefix.mp hnot)]
    exact ih (fun n => h (n + 1)) (start + 1)

theorem lineOfIndex_mono (s : String) {i j : Nat} (h : i ≤ j) :
    lineOfIndex s i ≤ lineOfIndex s j := by
  have htake : s.toList.take i <+: s.toList.take j := List.take_prefix_take_left h
  exact Nat.succ_le_succ (htake.sublist.count_le '\n')

end Text

namespace Code

open Text

variable {source name : String} {start i : Nat}

theorem quotedName_ne_nil (name : String) : (quotedName name).toList ≠ [] := by
  simp [quotedName]

/-- The first place from a position on is found. -/
theorem lineOfQuoted_of_first (hstart : start ≤ i) (h : StandsAt (quotedName name) source i)
    (hfirst : ∀ j, start ≤ j → j < i → ¬ StandsAt (quotedName name) source j) :
    lineOfQuoted source name start = (lineOfIndex source i, i + (quotedName name).length) := by
  obtain ⟨n, rfl⟩ := Nat.exists_eq_add_of_le hstart
  have hfound : findChars? (quotedName name).toList (source.toList.drop start) start =
      some (start + n) := by
    refine findChars?_of_first (by rwa [List.drop_drop]) ?_ start
    intro m hm
    rw [List.drop_drop]
    exact hfirst (start + m) (Nat.le_add_right start m) (Nat.add_lt_add_left hm start)
  simp only [lineOfQuoted, hfound]

/-- A name that does not stand behind a position is put on the first line. -/
theorem lineOfQuoted_of_none (h : ∀ j, start ≤ j → ¬ StandsAt (quotedName name) source j) :
    lineOfQuoted source name start = (1, start) := by
  have hnone : findChars? (quotedName name).toList (source.toList.drop start) start = none := by
    refine findChars?_eq_none ?_ start
    intro n
    rw [List.drop_drop]
    exact h (start + n) (Nat.le_add_right start n)
  simp only [lineOfQuoted, hnone]

/-- From the start on, the line of a name is the least line with the quoted name. -/
theorem isLeast_lineOfQuoted (h : StandsAt (quotedName name) source i) :
    IsLeast {n | ∃ j, StandsAt (quotedName name) source j ∧ lineOfIndex source j = n}
      (lineOfQuoted source name 0).1 := by
  classical
  have hsome : ∃ j, StandsAt (quotedName name) source j := ⟨i, h⟩
  have hfound := lineOfQuoted_of_first (Nat.zero_le _) (Nat.find_spec hsome)
    fun j _ hj => Nat.find_min hsome hj
  rw [hfound]
  refine ⟨⟨_, Nat.find_spec hsome, rfl⟩, ?_⟩
  rintro n ⟨j, hj, rfl⟩
  exact lineOfIndex_mono source (Nat.find_min' hsome hj)

/-! ## Names with one place -/

/-- A quoted name stands at an index and nowhere else. -/
def IsPlace (source name : String) (i : Nat) : Prop :=
  ∀ j, StandsAt (quotedName name) source j ↔ j = i

/-- Only the places before the end have to be looked at. -/
theorem isPlace_of_forall_lt (hi : i < source.length)
    (h : ∀ j < source.length, StandsAt (quotedName name) source j ↔ j = i) :
    IsPlace source name i := by
  intro j
  constructor
  · intro hj
    exact (h j (hj.lt_length (quotedName_ne_nil name))).mp hj
  · rintro rfl
    exact (h j hi).mpr rfl

theorem IsPlace.lineOfQuoted_of_le (h : IsPlace source name i) (hstart : start ≤ i) :
    lineOfQuoted source name start = (lineOfIndex source i, i + (quotedName name).length) := by
  refine lineOfQuoted_of_first hstart ((h i).mpr rfl) ?_
  intro j _ hj hstands
  exact absurd ((h j).mp hstands) (Nat.ne_of_lt hj)

theorem IsPlace.lineOfQuoted_of_lt (h : IsPlace source name i) (hstart : i < start) :
    lineOfQuoted source name start = (1, start) := by
  refine lineOfQuoted_of_none ?_
  intro j hj hstands
  exact absurd ((h j).mp hstands) (Nat.ne_of_gt (Nat.lt_of_lt_of_le hstart hj))

end Code

end CodeSurvey
