import CodeSurvey.Syntax.Walk
import Mathlib.Data.List.Nodup
import Mathlib.Order.WellFounded

/-!
# The pre-order of a syntax tree

A walk works off its stack one site after the other, so that a stack can be walked in parts. The sites
from a site down are the site itself and then, child by child, the sites from there down. No site
occurs twice among them, since a site knows its way up to the root.
-/

namespace CodeSurvey

namespace Site

/-- What holds of a site whenever it holds further down holds everywhere. -/
theorem below_induction {motive : Site → Prop}
    (step : ∀ s, (∀ b : Below s, motive b.site) → motive s) (s : Site) : motive s := by
  induction s using (measure size).wf.induction with
  | h s ih => exact step s fun b => ih b.site b.smaller

/-! ## Walks in parts -/

section Walk

variable {σ : Type} (visit : σ → Site → σ × Bool)

/-- A stack is walked from its first site to its last. -/
theorem walk_append (stack more : List Site) (state : σ) :
    walk visit (stack ++ more) state = walk visit more (walk visit stack state) := by
  fun_induction walk visit stack state with
  | case1 state => rfl
  | case2 s stack state state' hvisit ih =>
    rw [List.cons_append, walk, hvisit]
    rw [List.append_assoc] at ih
    exact ih
  | case3 s stack state state' descend hvisit hdescend ih =>
    rw [List.cons_append, walk, hvisit]
    exact (if_neg hdescend).trans ih

end Walk

/-! ## The sites from a site down -/

/-- The visit that goes everywhere and puts down where it was. -/
def collect (seen : List Site) (s : Site) : List Site × Bool := (s :: seen, true)

theorem walk_collect_cons (s : Site) (stack seen : List Site) :
    walk collect (s :: stack) seen =
      walk collect (s.children.map (·.site) ++ stack) (s :: seen) := by
  rw [walk]
  rfl

/-- What was seen before stays as it is. -/
theorem walk_collect_append (stack seen before : List Site) :
    walk collect stack (seen ++ before) = walk collect stack seen ++ before := by
  fun_induction walk collect stack seen with
  | case1 seen => rw [walk]
  | case2 s stack seen seen' hvisit ih =>
    cases hvisit
    rw [walk_collect_cons, ← List.cons_append]
    exact ih
  | case3 s stack seen seen' descend hvisit hdescend ih =>
    cases hvisit
    exact absurd rfl hdescend

theorem walk_collect (stack seen : List Site) :
    walk collect stack seen = (stack.flatMap preorder).reverse ++ seen := by
  induction stack generalizing seen with
  | nil => rw [walk, List.flatMap_nil, List.reverse_nil, List.nil_append]
  | cons s rest ih =>
    have hfirst : walk collect [s] seen = s.preorder.reverse ++ seen := by
      rw [← List.nil_append seen, walk_collect_append, List.nil_append]
      exact congrArg (· ++ seen) (List.reverse_reverse _).symm
    calc walk collect (s :: rest) seen
        = walk collect rest (walk collect [s] seen) := walk_append collect [s] rest seen
      _ = (rest.flatMap preorder).reverse ++ (s.preorder.reverse ++ seen) := by rw [ih, hfirst]
      _ = ((s :: rest).flatMap preorder).reverse ++ seen := by
        rw [List.flatMap_cons, List.reverse_append, List.append_assoc]

/-- A site comes first, and then all from its children down. -/
theorem preorder_eq (s : Site) :
    s.preorder = s :: s.children.flatMap fun b => b.site.preorder := by
  have hwalk : s.preorder = (walk collect (s.children.map (·.site) ++ []) [s]).reverse :=
    congrArg List.reverse (walk_collect_cons s [] [])
  rw [hwalk, List.append_nil, walk_collect, List.reverse_append, List.reverse_reverse,
    List.flatMap_map]
  rfl

/-! ## No site occurs twice -/

def depth (s : Site) : Nat := s.ancestors.length

def rank (s : Site) : Nat := s.allPrevious.length

theorem length_previousIn (parent : Site) (before : List Tree) :
    (previousIn parent before).length = before.length := by
  induction before with
  | nil => rfl
  | cons t before ih => exact congrArg (· + 1) ih

theorem depth_of_parent? {s p : Site} (h : s.parent? = some p) : s.depth = p.depth + 1 := by
  cases s with
  | root tree => cases h
  | child parent before tree =>
    cases h
    rfl

section Children

variable {s : Site} {before ts : List Tree} {h : Tree.sizes ts < s.size} {b : Below s}

theorem parent?_of_mem_belowIn (hb : b ∈ belowIn s before ts h) : b.site.parent? = some s := by
  induction ts generalizing before with
  | nil => cases hb
  | cons t ts ih =>
    rcases List.mem_cons.mp hb with rfl | hb
    · rfl
    · exact ih hb

theorem length_le_rank (hb : b ∈ belowIn s before ts h) : before.length ≤ b.site.rank := by
  induction ts generalizing before with
  | nil => cases hb
  | cons t ts ih =>
    rcases List.mem_cons.mp hb with rfl | hb
    · exact (length_previousIn s before).ge
    · exact (Nat.le_succ _).trans (ih hb)

theorem pairwise_rank_belowIn :
    (belowIn s before ts h).Pairwise fun b c => b.site.rank < c.site.rank := by
  induction ts generalizing before with
  | nil => exact List.Pairwise.nil
  | cons t ts ih =>
    refine List.pairwise_cons.mpr ⟨?_, ih⟩
    intro c hc
    exact (length_previousIn s before).trans_lt (length_le_rank hc)

theorem parent?_of_mem_children (hb : b ∈ s.children) : b.site.parent? = some s :=
  parent?_of_mem_belowIn hb

/-- Children differ in how many siblings are before them. -/
theorem pairwise_ne_children (s : Site) : s.children.Pairwise fun b c => b.site ≠ c.site :=
  pairwise_rank_belowIn.imp fun hlt heq => absurd (congrArg rank heq) hlt.ne

end Children

section Ancestors

variable {a b s x : Site}

theorem depth_le_of_mem_ancestors (ha : a ∈ x :: x.ancestors) : a.depth ≤ x.depth := by
  induction x with
  | root tree => rw [List.mem_singleton.mp ha]
  | child parent before tree ih =>
    rcases List.mem_cons.mp ha with rfl | ha
    · exact le_rfl
    · exact (ih ha).trans (Nat.le_succ _)

/-- On a way up there is one site of each depth. -/
theorem eq_of_depth_eq (ha : a ∈ x :: x.ancestors) (hb : b ∈ x :: x.ancestors)
    (h : a.depth = b.depth) : a = b := by
  induction x with
  | root tree => rw [List.mem_singleton.mp ha, List.mem_singleton.mp hb]
  | child parent before tree ih =>
    have hdepth : (child parent before tree).depth = parent.depth + 1 := rfl
    rcases List.mem_cons.mp ha with rfl | ha <;> rcases List.mem_cons.mp hb with rfl | hb
    · rfl
    · have hle := depth_le_of_mem_ancestors hb
      omega
    · have hle := depth_le_of_mem_ancestors ha
      omega
    · exact ih ha hb

theorem parent_mem_ancestors (ha : a ∈ x :: x.ancestors) (hs : a.parent? = some s) :
    s ∈ x :: x.ancestors := by
  induction x with
  | root tree =>
    rw [List.mem_singleton.mp ha] at hs
    cases hs
  | child parent before tree ih =>
    rcases List.mem_cons.mp ha with rfl | ha
    · cases hs
      exact List.mem_cons_of_mem _ List.mem_cons_self
    · exact List.mem_cons_of_mem _ (ih ha)

/-- A site is on the way up from all that is further down. -/
theorem mem_ancestors_of_mem_preorder (hx : x ∈ s.preorder) : s ∈ x :: x.ancestors := by
  induction s using below_induction with
  | step s ih =>
    rw [preorder_eq] at hx
    rcases List.mem_cons.mp hx with rfl | hx
    · exact List.mem_cons_self
    · obtain ⟨b, hb, hx⟩ := List.mem_flatMap.mp hx
      exact parent_mem_ancestors (ih b hx) (parent?_of_mem_children hb)

end Ancestors

/-- No site occurs twice from a site down. -/
theorem nodup_preorder (s : Site) : s.preorder.Nodup := by
  induction s using below_induction with
  | step s ih =>
    rw [preorder_eq, List.nodup_cons, List.nodup_flatMap]
    refine ⟨?_, fun b _ => ih b, ?_⟩
    · intro hs
      obtain ⟨b, hb, hs⟩ := List.mem_flatMap.mp hs
      have hle := depth_le_of_mem_ancestors (mem_ancestors_of_mem_preorder hs)
      have hdepth := depth_of_parent? (parent?_of_mem_children hb)
      omega
    · -- what is below two children of a site has both of them on its way up
      refine (pairwise_ne_children s).imp_of_mem ?_
      intro b c hb hc hne x hxb hxc
      have hb' := depth_of_parent? (parent?_of_mem_children hb)
      have hc' := depth_of_parent? (parent?_of_mem_children hc)
      exact hne (eq_of_depth_eq (mem_ancestors_of_mem_preorder hxb)
        (mem_ancestors_of_mem_preorder hxc) (hb'.trans hc'.symm))

end Site

end CodeSurvey
