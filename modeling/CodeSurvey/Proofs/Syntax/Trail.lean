import CodeSurvey.Proofs.Syntax.Preorder
import CodeSurvey.Syntax.Explore
import Mathlib.Data.List.Flatten

/-!
# The trail of an exploration

The trail of an exploration is the sequence of the sites that it visits, and its results are those of
the visits along the trail. If every visit asks for sites in order, none of them below another, then
the trail keeps to the pre-order of the tree, in which no site occurs twice.
-/

namespace CodeSurvey

/-! ## Sites in order -/

namespace Site

variable {s : Site}

/-- Sites below a site of which each comes, with all that is below it, after those before. -/
def Ordered (bs : List (Below s)) : Prop :=
  (bs.flatMap fun b => b.site.preorder).Sublist (s.children.flatMap fun b => b.site.preorder)

namespace Ordered

theorem nil : Ordered ([] : List (Below s)) := List.nil_sublist _

theorem of_sublist {bs : List (Below s)} (h : bs.Sublist s.children) : Ordered bs := h.flatMap _

theorem filter (p : Below s → Bool) : Ordered (s.children.filter p) :=
  of_sublist List.filter_sublist

theorem find?_toList (p : Below s → Bool) : Ordered (s.children.find? p).toList := by
  cases hfind : s.children.find? p with
  | none => exact nil
  | some b => exact of_sublist (List.singleton_sublist.mpr (List.mem_of_find?_eq_some hfind))

/-- What is in order below a child is in order. -/
theorem lift {b : Below s} {cs : List (Below b.site)} (hb : b ∈ s.children) (h : Ordered cs) :
    Ordered (cs.map b.lift) := by
  have hchild : b.site.preorder.Sublist (s.children.flatMap fun b => b.site.preorder) := by
    have hone : [b].Sublist s.children := List.singleton_sublist.mpr hb
    simpa using hone.flatMap fun b => b.site.preorder
  rw [Ordered, List.flatMap_map]
  refine List.Sublist.trans ?_ hchild
  rw [b.site.preorder_eq]
  exact h.cons _

theorem children {b : Below s} (hb : b ∈ s.children) : Ordered b.children :=
  lift hb (of_sublist (List.Sublist.refl _))

theorem namedChildren {b : Below s} (hb : b ∈ s.children) : Ordered b.namedChildren :=
  lift hb (filter _)

theorem field?_toList {b : Below s} (hb : b ∈ s.children) (name : String) :
    Ordered (b.field? name).toList := by
  have hlist : (b.field? name).toList = (b.site.field? name).toList.map b.lift := by
    rw [Below.field?]
    cases b.site.field? name <;> rfl
  rw [hlist]
  exact lift hb (find?_toList _)

/-- What a child under a field name leads to, if there is one. -/
theorem getD_field? {g : Below s → List (Below s)} (name : String)
    (hg : ∀ b ∈ s.children, Ordered (g b)) : Ordered (((s.field? name).map g).getD []) := by
  cases hfield : s.field? name with
  | none => exact nil
  | some b => exact hg b (List.mem_of_find?_eq_some hfield)

end Ordered

end Site

/-! ## Trails -/

section Trail

variable {Mode Result : Type}

/-- A visit asks for sites in order. -/
def Visit.Orderly {s : Site} (v : Visit Mode Result s) : Prop := Site.Ordered (v.next.map (·.2))

namespace Visit.Orderly

variable {s : Site}

theorem done (results : List Result) : (Visit.done results : Visit Mode Result s).Orderly :=
  Site.Ordered.nil

theorem ordered_map {mode : Mode} {bs : List (Site.Below s)} (h : Site.Ordered bs) :
    Site.Ordered ((bs.map (mode, ·)).map (·.2)) := by
  rw [List.map_map]
  exact (List.map_id bs).symm ▸ h

theorem mk {results : List Result} {mode : Mode} {bs : List (Site.Below s)}
    (h : Site.Ordered bs) : (⟨results, bs.map (mode, ·)⟩ : Visit Mode Result s).Orderly :=
  ordered_map h

end Visit.Orderly

variable (visit : Mode → (s : Site) → Visit Mode Result s)

/-- The sites that an exploration visits, with what the visits have to know there. -/
def trail (mode : Mode) (s : Site) : List (Mode × Site) :=
  explore (fun mode s => { results := [(mode, s)], next := (visit mode s).next }) mode s

theorem trail_eq (mode : Mode) (s : Site) :
    trail visit mode s =
      (mode, s) :: (visit mode s).next.flatMap fun n => trail visit n.1 n.2.site := by
  rw [trail, explore]
  rfl

/-- An exploration gives the results of the visits along its trail. -/
theorem explore_eq_flatMap_trail (mode : Mode) (s : Site) :
    explore visit mode s = (trail visit mode s).flatMap fun n => (visit n.1 n.2).results := by
  induction mode, s using explore.induct visit with
  | case1 mode s ih =>
    rw [explore, trail_eq, List.flatMap_cons, List.flatMap_assoc]
    exact congrArg _ (List.flatMap_congr fun n _ => ih n)

variable {visit}

/-- The trail of orderly visits keeps to the pre-order of the tree. -/
theorem trail_sublist_preorder (horderly : ∀ mode s, (visit mode s).Orderly) (mode : Mode)
    (s : Site) : ((trail visit mode s).map (·.2)).Sublist s.preorder := by
  induction mode, s using explore.induct visit with
  | case1 mode s ih =>
    have hbelow :
        ((visit mode s).next.flatMap fun n => (trail visit n.1 n.2.site).map (·.2)).Sublist
          ((visit mode s).next.flatMap fun n => n.2.site.preorder) :=
      List.Sublist.flatMap_right _ fun n _ => ih n
    have hnext := horderly mode s
    rw [Visit.Orderly, Site.Ordered, List.flatMap_map] at hnext
    rw [trail_eq, s.preorder_eq, List.map_cons, List.map_flatMap]
    exact (hbelow.trans hnext).cons_cons s

end Trail

end CodeSurvey
