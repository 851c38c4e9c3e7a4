import CodeSurvey.Text.Letters
import Mathlib

/-!
# Lower case in ASCII and in every script

Lower-casing the 26 basic letters first does not change what lower-casing in every script gives:
a basic letter has the same lower case in both, and both of its forms bear on a capital sigma in
the same way. Caseless matching goes by basic letters as well, but for two characters of other
scripts.
-/

namespace CodeSurvey.Text

/-! ## Single characters -/

/-- Beyond ASCII there is no basic letter. -/
theorem toLower_eq_self {c : Char} (h : ¬ c.toNat < 128) : c.toLower = c := by
  apply Char.toLower_eq_of_not_isUpper
  intro hu
  simp only [Char.isUpper, decide_eq_true_eq] at hu
  have hz : c.toNat ≤ 90 := hu.2
  omega

/-- What relates a character to itself, and ASCII characters to their lower case, relates every
character to its lower case. -/
theorem rel_toLower {R : Char → Char → Prop}
    (ascii : ∀ n < 128, R (Char.ofNat n) (Char.ofNat n).toLower) (refl : ∀ c, R c c) (c : Char) :
    R c c.toLower := by
  by_cases h : c.toNat < 128
  · have hc := ascii c.toNat h
    rwa [Char.ofNat_toNat] at hc
  · rw [toLower_eq_self h]
    exact refl c

@[simp] theorem isCased_toLower (c : Char) : isCased c.toLower = isCased c :=
  rel_toLower (R := fun a b => isCased b = isCased a) (by decide) (fun _ => rfl) c

@[simp] theorem isCaseIgnorable_toLower (c : Char) :
    isCaseIgnorable c.toLower = isCaseIgnorable c :=
  rel_toLower (R := fun a b => isCaseIgnorable b = isCaseIgnorable a) (by decide)
    (fun _ => rfl) c

@[simp] theorem lowerChar_toLower (c : Char) : lowerChar c.toLower = lowerChar c :=
  rel_toLower (R := fun a b => lowerChar b = lowerChar a) (by decide) (fun _ => rfl) c

/-- A character that is no basic letter is the lower case of itself alone. -/
theorem toLower_beq {d : Char} (hd : d.isAlpha = false) (c : Char) :
    (c.toLower == d) = (c == d) := by
  by_cases hu : c.isUpper
  · have hl : c.toLower ≠ d := by
      rintro rfl
      simp [Char.isAlpha, hu] at hd
    have hc : c ≠ d := by
      rintro rfl
      simp [Char.isAlpha, hu] at hd
    rw [beq_eq_false_iff_ne.mpr hl, beq_eq_false_iff_ne.mpr hc]
  · rw [Char.toLower_eq_of_not_isUpper hu]

/-! ## Texts -/

@[simp] theorem meetsCased_map_toLower (cs : List Char) :
    meetsCased (cs.map Char.toLower) = meetsCased cs := by
  have hi : isCaseIgnorable ∘ Char.toLower = isCaseIgnorable := funext isCaseIgnorable_toLower
  simp [meetsCased, List.dropWhile_map, hi, Option.any_map]

theorem lowerChars_map_toLower (before cs : List Char) :
    lowerChars (before.map Char.toLower) (cs.map Char.toLower) = lowerChars before cs := by
  induction cs generalizing before with
  | nil => rfl
  | cons c cs ih =>
    have hs : (c.toLower == 'Σ') = (c == 'Σ') := toLower_beq (by decide) c
    have hrest := ih (c :: before)
    rw [List.map_cons] at hrest
    simp only [List.map_cons, lowerChars, hs, meetsCased_map_toLower, lowerChar_toLower, hrest]

/-- Lower-casing the basic letters first makes no difference. -/
@[simp] theorem lower_lowerAscii (s : String) : lower (lowerAscii s) = lower s := by
  have h := lowerChars_map_toLower [] s.toList
  rw [List.map_nil] at h
  simp only [lower, lowerAscii, String.toList_ofList, h]

/-! ## Caseless matching -/

/-- The first of the characters that caseless matching identifies with `c`, a lower-case letter if
there is one. -/
def foldCase (c : Char) : Char := (caseVariants c).headD c

/-- Beyond ASCII only the Kelvin sign and the long s go with other characters. -/
theorem caseVariants_cases {R : Char → Prop} (ascii : ∀ n < 128, R (Char.ofNat n))
    (kelvin : R '\u212a') (long : R '\u017f') (self : ∀ c, caseVariants c = [c] → R c) (c : Char) :
    R c := by
  by_cases hc : c.toNat < 128
  · have hascii := ascii c.toNat hc
    rwa [Char.ofNat_toNat] at hascii
  · by_cases hkelvin : c = '\u212a'
    · exact hkelvin ▸ kelvin
    · by_cases hlong : c = '\u017f'
      · exact hlong ▸ long
      · apply self
        have hne (d : Char) (hd : d.toNat < 128) : c ≠ d := fun heq => hc (heq ▸ hd)
        have halpha : c.isAlpha = false := by
          rw [← Bool.not_eq_true]
          intro h
          simp only [Char.isAlpha, Char.isUpper, Char.isLower, Bool.or_eq_true, Bool.and_eq_true,
            decide_eq_true_eq] at h
          rcases h with ⟨-, hz⟩ | ⟨-, hz⟩
          · have hle : c.toNat ≤ 90 := hz
            omega
          · have hle : c.toNat ≤ 122 := hz
            omega
        simp [caseVariants, hne 'k' (by decide), hne 'K' (by decide), hne 's' (by decide),
          hne 'S' (by decide), hkelvin, hlong, halpha]

theorem mem_caseVariants_foldCase (c : Char) : c ∈ caseVariants (foldCase c) := by
  refine caseVariants_cases (R := fun c => c ∈ caseVariants (foldCase c)) (by decide)
    (by decide) (by decide) (fun c hself => ?_) c
  simp [foldCase, hself]

/-- Characters that go together are folded to the same one. -/
theorem foldCase_eq_of_mem {c d : Char} (h : d ∈ caseVariants c) : foldCase d = foldCase c := by
  have hsame : ∀ c, (caseVariants c).all fun d => foldCase d == foldCase c :=
    caseVariants_cases (by decide) (by decide) (by decide)
      fun c hself => by simp [foldCase, hself]
  exact eq_of_beq (List.all_eq_true.mp (hsame c) d h)

theorem mem_caseVariants_iff {c d : Char} : d ∈ caseVariants c ↔ foldCase c = foldCase d := by
  constructor
  · intro h
    rw [foldCase_eq_of_mem h]
  · intro h
    have hsub : ∀ c, caseVariants (foldCase c) ⊆ caseVariants c :=
      caseVariants_cases (by decide) (by decide) (by decide) fun c hself => by simp [foldCase, hself]
    exact hsub c (h ▸ mem_caseVariants_foldCase d)

end CodeSurvey.Text
