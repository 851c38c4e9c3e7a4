import CodeSurvey.Proofs.Report.Holdings

/-!
# Arrangements of blocks

Declarations that are read from a range of lines are arranged in it: the block of each lies within the
range, two blocks are apart or one of them lies strictly inside the other, and the closest block around
a declaration is that of the type that owns it. Ranges one after the other can be put together, and so
can a type and what is arranged between its first and its last line.
-/

namespace CodeSurvey

namespace Outline

/-- The last line of a block, 0 if it is not known. -/
def last (o : Outline) : Nat :=
  match o.lastLine with
  | some (.num (.int n)) => n.toNat
  | _ => 0

theorem Spans.last_eq {lines : List String} {last : Nat} {o : Outline} (h : o.Spans lines last) :
    o.last = last := by
  simp [Outline.last, h.lastLine_eq, Json.nat]

/-- Two blocks have no line in common. -/
def Apart (o p : Outline) : Prop := o.last < p.firstLine ∨ p.last < o.firstLine

/-- One block has another strictly inside of it, at both ends. -/
def Encloses (o p : Outline) : Prop := o.firstLine < p.firstLine ∧ p.last < o.last

/-- Two blocks are apart, or one of them encloses the other. -/
def Laminar (o p : Outline) : Prop := o.Apart p ∨ o.Encloses p ∨ p.Encloses o

theorem Laminar.symm {o p : Outline} (h : o.Laminar p) : p.Laminar o :=
  h.imp Or.symm Or.symm

/-- What a declaration belongs to among blocks: nothing encloses it and its source is the owner of all
of them, or the closest block around it is that of a type with the name of its source. -/
def BelongsTo (source owner : String) (blocks : List Outline) (o : Outline) : Prop :=
  (source = owner ∧ ∀ p ∈ blocks, ¬ p.Encloses o) ∨
    ∃ p ∈ blocks, p.kind.IsType ∧ p.name = source ∧ p.Encloses o ∧
      ∀ q ∈ blocks, q.Encloses o → ¬ p.Encloses q

end Outline

/-- Declarations arranged in the lines after `start` up to `stop`, as a whole owned by `owner`. -/
structure Arranged (lines : List String) (owner : String) (start stop : Nat) (hs : List Holding) :
    Prop where
  spans : ∀ h ∈ hs, h.outline.Spans lines h.outline.last
  within : ∀ h ∈ hs, start < h.outline.firstLine ∧ h.outline.last ≤ stop
  laminar : hs.Pairwise fun h k => h.outline.Laminar k.outline
  owners : ∀ h ∈ hs, h.outline.BelongsTo h.owner owner (hs.map (·.outline))

namespace Arranged

variable {lines : List String} {owner : String} {start stop mid : Nat} {hs ks : List Holding}

theorem nil : Arranged lines owner start stop [] := by
  constructor <;> simp

theorem widen {start' stop' : Nat} (h : Arranged lines owner start stop hs) (hstart : start' ≤ start)
    (hstop : stop ≤ stop') : Arranged lines owner start' stop' hs where
  spans := h.spans
  within x hx := ⟨hstart.trans_lt (h.within x hx).1, (h.within x hx).2.trans hstop⟩
  laminar := h.laminar
  owners := h.owners

/-- The order of the declarations does not matter. -/
theorem perm (h : Arranged lines owner start stop hs) (hperm : hs.Perm ks) :
    Arranged lines owner start stop ks where
  spans x hx := h.spans x (hperm.mem_iff.mpr hx)
  within x hx := h.within x (hperm.mem_iff.mpr hx)
  laminar := (hperm.pairwise_iff fun h => h.symm).mp h.laminar
  owners x hx := by
    have hmem (o : Outline) : o ∈ hs.map (·.outline) ↔ o ∈ ks.map (·.outline) :=
      (hperm.map _).mem_iff
    simpa only [Outline.BelongsTo, hmem] using h.owners x (hperm.mem_iff.mpr hx)

/-- A block between two bounds is not empty. -/
theorem firstLine_le_last (h : Arranged lines owner start stop hs) {x : Holding} (hx : x ∈ hs) :
    x.outline.firstLine ≤ x.outline.last := (h.spans x hx).firstLine_le

/-- A single declaration. -/
theorem single {x : Holding} (hspans : x.outline.Spans lines x.outline.last)
    (howner : x.owner = owner) (hstart : start < x.outline.firstLine)
    (hstop : x.outline.last ≤ stop) : Arranged lines owner start stop [x] where
  spans := by simpa using hspans
  within := by simpa using ⟨hstart, hstop⟩
  laminar := List.pairwise_singleton _ _
  owners := by
    intro y hy
    rw [List.mem_singleton.mp hy]
    refine .inl ⟨howner, ?_⟩
    simp [Outline.Encloses]

/-- A declaration belongs to the same block after blocks are added none of which encloses it. -/
theorem belongsTo_of_subset {source : String} {o : Outline} {blocks more : List Outline}
    (h : o.BelongsTo source owner blocks) (hsub : blocks ⊆ more)
    (hnew : ∀ p ∈ more, p.Encloses o → p ∈ blocks) : o.BelongsTo source owner more := by
  rcases h with ⟨hsource, hnone⟩ | ⟨p, hp, htype, hname, hencloses, hclosest⟩
  · exact .inl ⟨hsource, fun p hp hencloses => hnone p (hnew p hp hencloses) hencloses⟩
  · exact .inr ⟨p, hsub hp, htype, hname, hencloses,
      fun q hq hqo => hclosest q (hnew q hq hqo) hqo⟩

/-- What is arranged in one range and what is arranged in the next. -/
theorem append (h : Arranged lines owner start mid hs) (hnext : Arranged lines owner mid stop ks)
    (hstart : start ≤ mid) (hstop : mid ≤ stop) : Arranged lines owner start stop (hs ++ ks) where
  spans x hx := (List.mem_append.mp hx).elim (h.spans x) (hnext.spans x)
  within x hx := (List.mem_append.mp hx).elim ((h.widen le_rfl hstop).within x)
    ((hnext.widen hstart le_rfl).within x)
  laminar := by
    refine List.pairwise_append.mpr ⟨h.laminar, hnext.laminar, ?_⟩
    intro x hx y hy
    exact .inl (.inl ((h.within x hx).2.trans_lt (hnext.within y hy).1))
  owners x hx := by
    -- a block of one range encloses no block of the other
    have hapart (a : Holding) (ha : a ∈ hs) (b : Holding) (hb : b ∈ ks) :
        ¬ a.outline.Encloses b.outline ∧ ¬ b.outline.Encloses a.outline := by
      have hlt := (h.within a ha).2.trans_lt (hnext.within b hb).1
      have hle := h.firstLine_le_last ha
      have hle' := hnext.firstLine_le_last hb
      simp only [Outline.Encloses]
      omega
    rw [List.map_append]
    rcases List.mem_append.mp hx with hx | hx
    · refine belongsTo_of_subset (h.owners x hx) (List.subset_append_left _ _) ?_
      intro p hp hencloses
      refine (List.mem_append.mp hp).resolve_right fun hp => ?_
      obtain ⟨b, hb, rfl⟩ := List.mem_map.mp hp
      exact (hapart x hx b hb).2 hencloses
    · refine belongsTo_of_subset (hnext.owners x hx) (List.subset_append_right _ _) ?_
      intro p hp hencloses
      refine (List.mem_append.mp hp).resolve_left fun hp => ?_
      obtain ⟨a, ha, rfl⟩ := List.mem_map.mp hp
      exact (hapart a ha x hx).1 hencloses

/-- A type, and what is arranged between its first and its last line and belongs to it. -/
theorem enclose {x : Holding} (h : Arranged lines owner start stop [x])
    (htype : x.outline.kind.IsType)
    (hinner : Arranged lines x.outline.name x.outline.firstLine (x.outline.last - 1) hs) :
    Arranged lines owner start stop (x :: hs) := by
  have hspans := h.spans x (List.mem_singleton.mpr rfl)
  have hwithin := h.within x (List.mem_singleton.mpr rfl)
  have hinside (y : Holding) (hy : y ∈ hs) : x.outline.Encloses y.outline := by
    have hy' := hinner.within y hy
    have hle := hinner.firstLine_le_last hy
    refine ⟨hy'.1, ?_⟩
    omega
  have houter (y : Holding) (hy : y ∈ hs) : ¬ y.outline.Encloses x.outline := by
    intro hencloses
    have hlt := (hinside y hy).1
    exact absurd (hencloses.1.trans hlt) (lt_irrefl _)
  constructor
  · exact List.forall_mem_cons.mpr ⟨hspans, hinner.spans⟩
  · refine List.forall_mem_cons.mpr ⟨hwithin, fun y hy => ?_⟩
    have hinner' := hinside y hy
    exact ⟨hwithin.1.trans hinner'.1, (hinner'.2.trans_le hwithin.2).le⟩
  · exact List.pairwise_cons.mpr ⟨fun y hy => .inr (.inl (hinside y hy)), hinner.laminar⟩
  · refine List.forall_mem_cons.mpr ⟨.inl ⟨?_, ?_⟩, fun y hy => .inr ?_⟩
    · rcases h.owners x (List.mem_singleton.mpr rfl) with ⟨howner, -⟩ | ⟨p, hp, -, -, hencloses, -⟩
      · exact howner
      · rw [List.mem_singleton.mp hp] at hencloses
        exact absurd hencloses.1 (lt_irrefl _)
    · rw [List.map_cons, List.forall_mem_cons]
      refine ⟨fun hencloses => lt_irrefl _ hencloses.1, ?_⟩
      rw [List.forall_mem_map]
      exact houter
    · -- what encloses an inner block is an inner block or the type itself
      rcases hinner.owners y hy with ⟨hname, hnone⟩ | ⟨p, hp, hkind, hname, hencloses, hclosest⟩
      · refine ⟨x.outline, List.mem_cons_self, htype, hname.symm, hinside y hy, ?_⟩
        rw [List.map_cons, List.forall_mem_cons]
        exact ⟨fun _ hself => lt_irrefl _ hself.1,
          fun q hq hencloses => absurd hencloses (hnone q hq)⟩
      · refine ⟨p, List.mem_cons_of_mem _ hp, hkind, hname, hencloses, ?_⟩
        rw [List.map_cons, List.forall_mem_cons]
        refine ⟨fun _ => ?_, hclosest⟩
        obtain ⟨z, hz, rfl⟩ := List.mem_map.mp hp
        exact houter z hz

/-- Groups of declarations, each arranged in a range of its own after those before. -/
theorem flatMap {α : Type} {items : List α} (first past : α → Nat) {g : α → List Holding}
    (hbounds : ∀ x ∈ items, start ≤ first x ∧ first x ≤ past x ∧ past x ≤ stop)
    (hsorted : items.Pairwise fun x y => past x ≤ first y)
    (hg : ∀ x ∈ items, Arranged lines owner (first x) (past x) (g x)) :
    Arranged lines owner start stop (items.flatMap g) := by
  induction items generalizing start with
  | nil => exact nil
  | cons x rest ih =>
    obtain ⟨⟨hstart, hx, hstop⟩, hrest⟩ := List.forall_mem_cons.mp hbounds
    obtain ⟨hafter, hsorted⟩ := List.pairwise_cons.mp hsorted
    obtain ⟨hgx, hg⟩ := List.forall_mem_cons.mp hg
    rw [List.flatMap_cons]
    refine (hgx.widen hstart le_rfl).append (ih ?_ hsorted hg) (hstart.trans hx) hstop
    intro y hy
    exact ⟨hafter y hy, (hrest y hy).2⟩

/-! ## Reports on what is arranged -/

variable {r : Report}

theorem spans_blocks (h : Arranged lines owner start stop hs) (hr : r.Holds hs) :
    ∀ o ∈ r.blocks, o.Spans lines o.last := by
  rw [hr.blocks_eq, List.forall_mem_map]
  exact h.spans

theorem laminar_blocks (h : Arranged lines owner start stop hs) (hr : r.Holds hs) :
    r.blocks.Pairwise Outline.Laminar := by
  rw [hr.blocks_eq, List.pairwise_map]
  exact h.laminar

/-- The definition of each element comes from what the element belongs to. -/
theorem belongsTo_definitions (h : Arranged lines owner start stop hs) (hr : r.Holds hs) :
    List.Forall₂ (fun o rel => rel.target = o.name ∧ o.BelongsTo rel.source owner r.blocks)
      r.blocks (r.relationsOf .defines) := by
  have hpairs : List.Forall₂
      (fun (o : Outline) (ends : String × String) =>
        ends.2 = o.name ∧ o.BelongsTo ends.1 owner r.blocks)
      r.blocks ((r.relationsOf .defines).map fun rel => (rel.source, rel.target)) := by
    rw [hr.definitions_eq, hr.blocks_eq, List.forall₂_map_left_iff, List.forall₂_map_right_iff,
      List.forall₂_same]
    intro x hx
    exact ⟨rfl, h.owners x hx⟩
  exact List.forall₂_map_right_iff.mp hpairs

end Arranged

end CodeSurvey
