import CodeSurvey.Proofs.Regex.Searching
import CodeSurvey.Proofs.Text.Occurrence

/-!
# Texts that a match cannot do without

On each way through its alternatives an expression sets some characters and leaves what stands between
them open. These skeletons are found without matching anything. If every skeleton of an expression
has one of several texts in it, then one of these texts occurs wherever the expression matches.
-/

namespace CodeSurvey.Regex

/-- A text with parts left open: a character that stands there, or `none` for any text. -/
abbrev Skeleton := List (Option Char)

/-- The texts that a skeleton allows. -/
inductive Fits : Skeleton → List Char → Prop
  | nil : Fits [] []
  | char {p : Skeleton} {cs : List Char} (c : Char) (h : Fits p cs) : Fits (some c :: p) (c :: cs)
  | gap {p : Skeleton} {cs : List Char} (xs : List Char) (h : Fits p cs) :
      Fits (none :: p) (xs ++ cs)

namespace Fits

variable {p q : Skeleton} {w cs ds : List Char}

theorem append (hp : Fits p cs) (hq : Fits q ds) : Fits (p ++ q) (cs ++ ds) := by
  induction hp with
  | nil => exact hq
  | char c _ ih => exact .char c ih
  | gap xs _ ih =>
    rw [List.append_assoc]
    exact .gap xs ih

theorem exists_append (h : Fits (p ++ q) cs) : ∃ xs ys, cs = xs ++ ys ∧ Fits p xs ∧ Fits q ys := by
  induction p generalizing cs with
  | nil => exact ⟨[], cs, rfl, .nil, h⟩
  | cons piece p ih =>
    cases h with
    | char c h =>
      obtain ⟨xs, ys, rfl, hxs, hys⟩ := ih h
      exact ⟨c :: xs, ys, rfl, .char c hxs, hys⟩
    | gap zs h =>
      obtain ⟨xs, ys, rfl, hxs, hys⟩ := ih h
      exact ⟨zs ++ xs, ys, (List.append_assoc zs xs ys).symm, .gap zs hxs, hys⟩

theorem eq_of_map_some (h : Fits (w.map some) cs) : cs = w := by
  induction w generalizing cs with
  | nil =>
    cases h
    rfl
  | cons c w ih =>
    cases h with
    | char c h => rw [ih h]

/-- A text in a skeleton stands in every text that the skeleton allows. -/
theorem infix_of_infix (h : Fits p cs) (hw : w.map some <:+: p) : w <:+: cs := by
  obtain ⟨before, after, rfl⟩ := hw
  obtain ⟨xs, zs, rfl, hxs, -⟩ := h.exists_append
  obtain ⟨ys, us, rfl, -, hus⟩ := hxs.exists_append
  rw [hus.eq_of_map_some]
  exact ⟨ys, zs, rfl⟩

end Fits

/-- The skeletons of an expression, one for each way through its alternatives. -/
def skeletons : Regex → List Skeleton
  | empty => [[]]
  | set (.one c) => [[some c]]
  | set _ => [[none]]
  | look _ => [[]]
  | seq a b => a.skeletons.flatMap fun p => b.skeletons.map (p ++ ·)
  | alt a b => a.skeletons ++ b.skeletons
  | star _ _ => [[none]]
  | group _ r => r.skeletons

section Runs

variable {r : Regex} {s t : Cursor}

theorem exists_fits_set {c : CharClass} {y : Char} (h : c.has y = true) :
    ∃ p ∈ (set c).skeletons, Fits p [y] := by
  have hopen : Fits [none] [y] := .gap [y] .nil
  cases c with
  | one a =>
    obtain rfl : a = y := by simpa [CharClass.has] using h
    exact ⟨[some a], List.mem_singleton_self _, .char a .nil⟩
  | never | always | range | word | decimal | blank | union | except | anyCase =>
    exact ⟨[none], List.mem_singleton_self _, hopen⟩

/-- Whatever way an expression takes, it reads a text that one of its skeletons allows. -/
theorem Reads.exists_skeleton (h : Reads r s t) :
    ∃ p ∈ r.skeletons, ∃ cs, Fits p cs ∧ s.rest = cs ++ t.rest := by
  -- rounds are left open as a whole
  have hopen {greedy : Bool} {r : Regex} {s t : Cursor} (h : Reads (.star greedy r) s t) :
      ∃ p ∈ (star greedy r).skeletons, ∃ cs, Fits p cs ∧ s.rest = cs ++ t.rest := by
    obtain ⟨cs, hcs, -⟩ := h.exists_append
    exact ⟨[none], List.mem_singleton_self _, cs, by simpa using Fits.gap cs .nil, hcs⟩
  induction h with
  | empty => exact ⟨[], List.mem_singleton_self _, [], .nil, rfl⟩
  | @set c s x xs hrest hx =>
    obtain ⟨p, hp, hfits⟩ := exists_fits_set hx
    exact ⟨p, hp, [x], hfits, by rw [hrest, Cursor.rest_past hrest, List.singleton_append]⟩
  | look h => exact ⟨[], List.mem_singleton_self _, [], .nil, rfl⟩
  | seq ha hb iha ihb =>
    obtain ⟨p, hp, cs, hfits, hrest⟩ := iha
    obtain ⟨q, hq, ds, hfits', hrest'⟩ := ihb
    refine ⟨p ++ q, ?_, cs ++ ds, hfits.append hfits', by rw [hrest, hrest', List.append_assoc]⟩
    exact List.mem_flatMap.mpr ⟨p, hp, List.mem_map_of_mem hq⟩
  | left h ih =>
    obtain ⟨p, hp, hread⟩ := ih
    exact ⟨p, List.mem_append_left _ hp, hread⟩
  | right h ih =>
    obtain ⟨p, hp, hread⟩ := ih
    exact ⟨p, List.mem_append_right _ hp, hread⟩
  | stop => exact hopen .stop
  | round h hlt hmore => exact hopen (.round h hlt hmore)
  | group h ih => exact ih

end Runs

/-! ## Requirements -/

/-- Every skeleton of the expression has one of the texts in it. -/
def Requires (ws : List String) (r : Regex) : Prop :=
  ∀ p ∈ r.skeletons, ∃ w ∈ ws, w.toList.map some <:+: p

instance (ws : List String) (r : Regex) : Decidable (r.Requires ws) :=
  inferInstanceAs (Decidable (∀ p ∈ r.skeletons, ∃ w ∈ ws, _))

namespace Requires

variable {ws : List String} {r : Regex} {text : String}

theorem infix_of_search {bound : Nat} {s t : Cursor} {m : Match} (h : r.Requires ws)
    (hsearch : r.search bound s = some (m, t)) : ∃ w ∈ ws, w.toList <:+: s.rest := by
  obtain ⟨zs, ys, hsplit, hmatch⟩ := exists_place_of_search hsearch
  obtain ⟨p, hp, xs, hfits, hrest⟩ := (reads_of_matchAt hmatch).1.exists_skeleton
  obtain ⟨w, hw, hinfix⟩ := h p hp
  change (s.past zs).rest = xs ++ t.rest at hrest
  rw [Cursor.rest_past hsplit] at hrest
  have hread : xs <:+: s.rest := ⟨zs, t.rest, by rw [hsplit, hrest, List.append_assoc]⟩
  exact ⟨w, hw, (hfits.infix_of_infix hinfix).trans hread⟩

/-- A text in which the expression is found has one of the texts that it requires. -/
theorem occurs_of_find? (h : r.Requires ws) {m : Match} (hfind : r.find? text = some m) :
    ∃ w ∈ ws, Text.Occurs w text := by
  obtain ⟨found, hsearch, -⟩ := Option.map_eq_some_iff.mp hfind
  exact h.infix_of_search hsearch

theorem occurs_of_isMatch (h : r.Requires ws) (hmatch : r.isMatch text = true) :
    ∃ w ∈ ws, Text.Occurs w text := by
  obtain ⟨m, hfind⟩ := Option.isSome_iff_exists.mp hmatch
  exact h.occurs_of_find? hfind

/-- Where none of the texts occurs there is no match. -/
theorem findAll_eq_nil (h : r.Requires ws) (hnone : ∀ w ∈ ws, ¬ Text.Occurs w text) :
    r.findAll text = [] := by
  have hsearch : r.search text.length (Cursor.ofChars text.toList) = none := by
    rw [Option.eq_none_iff_forall_ne_some]
    intro found hfound
    obtain ⟨w, hw, hinfix⟩ := h.infix_of_search hfound
    exact hnone w hw hinfix
  rw [findAll, matchesFrom, hsearch]

end Requires

end CodeSurvey.Regex
