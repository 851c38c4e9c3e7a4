import CodeSurvey.Proofs.Naming.Basic
import CodeSurvey.Proofs.Syntax.Walkers

/-!
# Names in explored syntax trees

Where a syntax tree is explored, a declaration stands inside of a type if its node is further down
than that of the type. A visit of a type goes on in the name of the type, and any other visit keeps the
owner that it has, so that along a trail the owner is always the innermost type around.
-/

namespace CodeSurvey

/-! ## Sites further down -/

namespace Site

variable {s t u : Site}

/-- A site is further down than another one: from one of its children down. -/
def Under (s t : Site) : Prop := ∃ c ∈ t.children, s ∈ c.site.preorder

theorem mem_preorder_iff : s ∈ t.preorder ↔ s = t ∨ s.Under t := by
  rw [preorder_eq, List.mem_cons, List.mem_flatMap, Under]

theorem mem_preorder_trans (hs : s ∈ t.preorder) (ht : t ∈ u.preorder) : s ∈ u.preorder := by
  induction u using below_induction with
  | step u ih =>
    rcases mem_preorder_iff.mp ht with rfl | ⟨c, hc, ht⟩
    · exact hs
    · exact mem_preorder_iff.mpr (.inr ⟨c, hc, ih c ht⟩)

theorem Under.of_mem_preorder (hs : s ∈ t.preorder) (ht : t.Under u) : s.Under u := by
  obtain ⟨c, hc, ht⟩ := ht
  exact ⟨c, hc, mem_preorder_trans hs ht⟩

theorem Under.depth_lt (h : s.Under t) : t.depth < s.depth := by
  obtain ⟨c, hc, hs⟩ := h
  have hle := depth_le_of_mem_ancestors (mem_ancestors_of_mem_preorder hs)
  have hdepth := depth_of_parent? (parent?_of_mem_children hc)
  omega

theorem depth_le_of_mem_preorder (h : s ∈ t.preorder) : t.depth ≤ s.depth := by
  rcases mem_preorder_iff.mp h with rfl | h
  · exact le_rfl
  · exact h.depth_lt.le

end Site

/-! ## Trails -/

section Trail

variable {Mode : Type} {visit : Mode → (s : Site) → Visit Mode Fact s}

theorem mem_preorder_of_mem_trail (horderly : ∀ mode s, (visit mode s).Orderly) {mode : Mode}
    {s : Site} {n : Mode × Site} (hn : n ∈ trail visit mode s) : n.2 ∈ s.preorder :=
  (trail_sublist_preorder horderly mode s).subset (List.mem_map_of_mem hn)

/-- What is next goes into parts of the tree that have nothing in common. -/
theorem eq_of_mem_preorder (horderly : ∀ mode s, (visit mode s).Orderly) {mode : Mode} {s x : Site}
    {m m' : Mode × Site.Below s} (hm : m ∈ (visit mode s).next) (hm' : m' ∈ (visit mode s).next)
    (hx : x ∈ m.2.site.preorder) (hx' : x ∈ m'.2.site.preorder) : m = m' := by
  have hnodup : ((visit mode s).next.flatMap fun m => m.2.site.preorder).Nodup := by
    have hordered := horderly mode s
    rw [Visit.Orderly, Site.Ordered, List.flatMap_map] at hordered
    have hall := s.nodup_preorder
    rw [s.preorder_eq, List.nodup_cons] at hall
    exact hordered.nodup hall.2
  by_contra hne
  have hsymm : Std.Symm (Function.onFun List.Disjoint fun m : Mode × Site.Below s =>
      m.2.site.preorder) := ⟨fun _ _ h => List.Disjoint.symm h⟩
  exact (List.nodup_flatMap.mp hnodup).2.forall hm hm' hne hx hx'

theorem under_of_mem_next (horderly : ∀ mode s, (visit mode s).Orderly) {mode : Mode} {s : Site}
    {m : Mode × Site.Below s} (hm : m ∈ (visit mode s).next) : m.2.site.Under s := by
  have hordered := horderly mode s
  rw [Visit.Orderly, Site.Ordered, List.flatMap_map] at hordered
  have hmem := hordered.subset (List.mem_flatMap.mpr
    ⟨m, hm, Site.mem_preorder_iff.mpr (.inl rfl)⟩)
  exact List.mem_flatMap.mp hmem

theorem mem_trail_self (mode : Mode) (s : Site) : (mode, s) ∈ trail visit mode s := by
  rw [trail_eq]
  exact List.mem_cons_self

theorem mem_trail_of_next {mode : Mode} {s : Site} {m : Mode × Site.Below s}
    (hm : m ∈ (visit mode s).next) {n : Mode × Site} (hn : n ∈ trail visit m.1 m.2.site) :
    n ∈ trail visit mode s := by
  rw [trail_eq]
  exact List.mem_cons_of_mem _ (List.mem_flatMap.mpr ⟨m, hm, hn⟩)

/-- Whatever of a trail lies around a site is where the trail starts, or on the same part of it. -/
theorem mem_part_of_under (horderly : ∀ mode s, (visit mode s).Orderly) {mode : Mode} {s x : Site}
    {m : Mode × Site.Below s} (hm : m ∈ (visit mode s).next) (hx : x ∈ m.2.site.preorder)
    {p : Mode × Site} (hp : p ∈ trail visit mode s) (hunder : x.Under p.2) :
    p = (mode, s) ∨ p ∈ trail visit m.1 m.2.site := by
  rw [trail_eq] at hp
  rcases List.mem_cons.mp hp with rfl | hp
  · exact .inl rfl
  · obtain ⟨m', hm', hp⟩ := List.mem_flatMap.mp hp
    have hx' := Site.mem_preorder_trans (Site.mem_preorder_iff.mpr (.inr hunder))
      (mem_preorder_of_mem_trail horderly hp)
    rw [eq_of_mem_preorder horderly hm hm' hx hx']
    exact .inr hp

/-- Along a trail things are declared in the name of the innermost type around them. -/
theorem ownedAmong_trail (manner : Manner Mode)
    (hnames : ∀ mode s, (visit mode s).Names manner (manner.ownerOf mode)) (mode : Mode) (s : Site)
    {n : Mode × Site} (hn : n ∈ trail visit mode s) :
    OwnedAmong (fun n => (visit n.1 n.2).results) (trail visit mode s) (fun n p => n.2.Under p.2)
      (manner.ownerOf mode) (manner.ownerOf n.1) n := by
  have horderly := fun mode s => (hnames mode s).orderly
  induction mode, s using explore.induct visit generalizing n with
  | case1 mode s ih =>
    have hn' := hn
    rw [trail_eq] at hn'
    rcases List.mem_cons.mp hn' with rfl | hn'
    · refine .inl ⟨rfl, ?_⟩
      intro p hp _ hunder
      have hle := Site.depth_le_of_mem_preorder (mem_preorder_of_mem_trail horderly hp)
      exact absurd hunder.depth_lt hle.not_gt
    · obtain ⟨m, hm, hn⟩ := List.mem_flatMap.mp hn'
      have hpart := ih m hn
      rw [(hnames mode s).next_owner m hm] at hpart
      have hunder := under_of_mem_next horderly hm
      have hnm := mem_preorder_of_mem_trail horderly hn
      refine hpart.enclose (mem_trail_self mode s) (fun p => mem_trail_of_next hm)
        (hunder.of_mem_preorder hnm) (fun p => mem_part_of_under horderly hm hnm)
        (fun hself => lt_irrefl _ hself.depth_lt) ?_
      intro p hp hsp
      have hps := (hunder.of_mem_preorder (mem_preorder_of_mem_trail horderly hp)).depth_lt
      exact absurd hsp.depth_lt hps.not_gt

end Trail

/-! ## The walkers -/

namespace Walker

theorem ownerOf_start (w : Walker) (path : String) : w.ownerOf (w.start path) = path := by
  cases w <;> rfl

variable (w : Walker) (settings : Settings) (fs : FileSystem) (source : Source)

/-- The visits of a survey, none if the source has no tree. -/
def visits : List (w.Scope × Site) := source.tree.toList.flatMap (w.visited source)

/-- The declarations of a source by their nodes in the syntax tree. -/
def layout : Layout :=
  .ofSteps (w.results source) (w.visits source)
    (fun n plain => plainName? source.unit n.2 w = some plain) (fun n p => n.2.Under p.2)

theorem stated_visits (n : w.Scope × Site) :
    Stated w.types (w.Makes source.unit n.2 ·) (w.ownerOf n.1)
      (NamedBy source.path (w.ownerOf n.1) (w.plainName? source.unit n.2 = some ·))
      (w.results source n) :=
  (w.names_visit source.unit n.1 n.2).stated

theorem ownedAmong_visits {n : w.Scope × Site} (hn : n ∈ w.visits source) :
    OwnedAmong (w.results source) (w.visits source) (fun n p => n.2.Under p.2) source.path
      (w.ownerOf n.1) n := by
  unfold visits at hn ⊢
  generalize source.tree = tree? at hn ⊢
  cases tree? with
  | none => cases hn
  | some tree =>
    rw [Option.toList_some, List.flatMap_singleton] at hn ⊢
    unfold visited at hn ⊢
    split at hn
    · next hexplores =>
      rw [if_pos hexplores]
      have howned := ownedAmong_trail (w.manner source.unit) (w.names_visit source.unit) _ _ hn
      have hstart : (w.manner source.unit).ownerOf (w.start source.path) = source.path :=
        w.ownerOf_start source.path
      rw [hstart] at howned
      exact howned
    · cases hn

theorem imprints_surveyOfTree (language : String) (bank : Bank) (facts : Tree → List Fact) :
    (surveyOfTree settings fs source language bank facts).imprints =
      source.tree.toList.flatMap fun tree =>
        if !source.cancelled then (facts tree).flatMap Fact.imprints else [] := by
  unfold surveyOfTree
  dsimp only
  cases source.cancelled with
  | true => cases source.tree <;> rfl
  | false =>
    cases source.tree with
    | none => rfl
    | some tree =>
      rw [Option.toList_some, List.flatMap_singleton]
      refine (Report.imprints_detect _ _ _ _).trans ((Report.imprints_recordAll _ _ _).trans ?_)
      cases tree.firstErrorLine? with
      | none => rfl
      | some line =>
        rw [Option.map_some, Option.getD_some, Report.imprints_flagSyntaxError]
        rfl

theorem imprints_python :
    (Python.survey settings fs source).imprints =
      source.tree.toList.flatMap fun tree =>
        if !source.cancelled && tree.firstErrorLine?.isNone then
          (Python.facts source.path source.content tree).flatMap Fact.imprints
        else [] := by
  unfold Python.survey Python.checkedTree
  dsimp only
  cases source.cancelled with
  | true => cases source.tree <;> rfl
  | false =>
    cases source.tree with
    | none => rfl
    | some tree =>
      rw [Option.toList_some, List.flatMap_singleton]
      dsimp only
      cases tree.firstErrorLine? with
      | none => exact (Report.imprints_detect _ _ _ _).trans (Report.imprints_recordAll _ _ _)
      | some line => exact Report.imprints_flagSyntaxError _ line

/-- The elements of a report other than the file are what the visits of its survey declare. -/
theorem imprints_survey :
    (w.survey settings fs source).imprints =
      ((w.visits source).flatMap (w.results source)).flatMap Fact.imprints := by
  have hexplore : (w.survey settings fs source).imprints =
      source.tree.toList.flatMap fun tree =>
        if w.explores source tree then
          (explore (w.visit source.unit) (w.start source.path) (.root tree)).flatMap Fact.imprints
        else [] := by
    cases w with
    | csharp | typescript => exact imprints_surveyOfTree settings fs source _ _ _
    | python => exact imprints_python settings fs source
  rw [hexplore, visits]
  cases source.tree with
  | none => rfl
  | some tree =>
    rw [Option.toList_some, List.flatMap_singleton, List.flatMap_singleton, visited,
      explore_eq_flatMap_trail]
    split <;> rfl

/-- The elements of a report are named by where their nodes stand in the syntax tree. -/
theorem names_survey : (w.layout source).Names source.path (w.survey settings fs source) := by
  have hstated := fun n (_ : n ∈ w.visits source) => w.stated_visits source n
  have himprints := (w.imprints_survey settings fs source).trans (flatMap_imprints hstated)
  refine Layout.names_of_entries map_fst_entriesOf.symm himprints ?_
  exact Layout.named_ofSteps hstated fun n hn => w.ownedAmong_visits source hn

end Walker

end CodeSurvey
