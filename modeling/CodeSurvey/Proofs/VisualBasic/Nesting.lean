import CodeSurvey.Proofs.VisualBasic.Effects

/-!
# The nesting of blocks in Visual Basic sources

Reading a source keeps a stack of open blocks. The invariant ties the stack to the outlines of the
report: open blocks wait for their last line, inner ones stand after outer ones, and a block that is
closed lies within each earlier one or starts where that one has ended. It holds for any text, since
it follows from the four effects a statement can have.
-/

namespace CodeSurvey

/-! ## First and last lines -/

section Lines

variable {outlines : List Outline} {o : Outline} {p i last : Nat} {content : String}

def firstLines (outlines : List Outline) : List Nat := outlines.map (·.firstLine)

/-- The last line at a position, if the block there has ended. -/
def lastLineAt (outlines : List Outline) (i : Nat) : Option Json := outlines[i]?.bind (·.lastLine)

theorem lastLineAt_append (h : o.lastLine = none) (i : Nat) :
    lastLineAt (outlines ++ [o]) i = lastLineAt outlines i := by
  unfold lastLineAt
  rcases Nat.lt_trichotomy i outlines.length with hi | rfl | hi
  · rw [List.getElem?_append_left hi]
  · simp [h]
  · rw [List.getElem?_eq_none (by simp; omega), List.getElem?_eq_none (by omega)]

theorem lastLineAt_close (h : outlines[p]? = some o) (i : Nat) :
    lastLineAt (outlines.modify p (·.close content last)) i =
      if p = i then some (.nat last) else lastLineAt outlines i := by
  unfold lastLineAt
  rw [List.getElem?_modify]
  by_cases hi : p = i
  · subst hi
    simp [h, Outline.close]
  · simp [hi]

@[simp] theorem firstLines_append :
    firstLines (outlines ++ [o]) = firstLines outlines ++ [o.firstLine] :=
  List.map_append

@[simp] theorem firstLines_close :
    firstLines (outlines.modify p (·.close content last)) = firstLines outlines := by
  apply Report.map_modify
  intro o
  rfl

theorem mem_close {o' : Outline} (h : o' ∈ outlines.modify p (·.close content last)) :
    o' ∈ outlines ∨ ∃ o, outlines[p]? = some o ∧ o' = o.close content last := by
  obtain ⟨i, hi⟩ := List.mem_iff_getElem?.mp h
  rw [List.getElem?_modify] at hi
  obtain ⟨o, ho, rfl⟩ := Option.map_eq_some_iff.mp hi
  by_cases hp : p = i
  · subst hp
    exact .inr ⟨o, ho, if_pos rfl⟩
  · left
    rw [if_neg hp]
    exact List.mem_of_getElem? ho

end Lines

namespace VisualBasic

open Code (Listing)

/-! ## The invariant -/

/-- How open blocks, innermost first, and outlines fit together once a line has been reached. -/
structure Nested (listing : Listing) (line : Nat) (blocks : List Block) (outlines : List Outline) :
    Prop where
  /-- Elements are declared from top to bottom. -/
  ascending : (firstLines outlines).Pairwise (· ≤ ·)
  reached : ∀ n ∈ firstLines outlines, 1 ≤ n ∧ n ≤ line + 1
  /-- Inner blocks belong to later elements. -/
  inward : blocks.Pairwise fun b c => c.position < b.position
  within : ∀ b ∈ blocks, b.start < listing.raw.length
  pending : ∀ b ∈ blocks,
    ∃ o, outlines[b.position]? = some o ∧ o.firstLine = b.start + 1 ∧ o.lastLine = none
  closed : ∀ o ∈ outlines, o.lastLine = none ∨ ∃ last ≤ line + 1, o.Spans listing.raw last
  /-- An open block starts where the earlier blocks that are closed have ended. -/
  beyond : ∀ i last, lastLineAt outlines i = some (.nat last) →
    ∀ b ∈ blocks, i < b.position → last ≤ b.start + 1
  /-- Of two closed blocks the later one lies within the earlier one or starts where that one has
  ended. -/
  apart : ∀ i j last last' first, i < j → lastLineAt outlines i = some (.nat last) →
    lastLineAt outlines j = some (.nat last') → (firstLines outlines)[j]? = some first →
    last' ≤ last ∨ last ≤ first

/-- The block at a position is open, or its last line is known. -/
def Settled (blocks : List Block) (outlines : List Outline) (p : Nat) : Prop :=
  (∃ b ∈ blocks, b.position = p) ∨ lastLineAt outlines p ≠ none

/-- The blocks of all types are settled. -/
def TypesSettled (blocks : List Block) (outlines : List Outline) : Prop :=
  ∀ i o, outlines[i]? = some o → o.kind.IsType → Settled blocks outlines i

theorem json_nat_inj {m n : Nat} (h : Json.nat m = Json.nat n) : m = n := by
  simpa [Json.nat] using h

namespace Nested

variable {listing : Listing} {line : Nat} {blocks : List Block} {b : Block}
  {outlines : List Outline} {o : Outline}

theorem position_lt (h : Nested listing line blocks outlines) (hb : b ∈ blocks) :
    b.position < outlines.length := by
  obtain ⟨o, ho, -⟩ := h.pending b hb
  exact (List.getElem?_eq_some_iff.mp ho).1

/-- A last line is at most the line reached. -/
theorem last_le (h : Nested listing line blocks outlines) {i last : Nat}
    (hlast : lastLineAt outlines i = some (.nat last)) : last ≤ line + 1 := by
  obtain ⟨o, ho, hjson⟩ := Option.bind_eq_some_iff.mp hlast
  rcases h.closed o (List.mem_of_getElem? ho) with hnone | ⟨last', hle, hspans⟩
  · simp [hnone] at hjson
  · have heq : last' = last := by
      rw [hspans.lastLine_eq, Option.some_inj] at hjson
      exact json_nat_inj hjson
    exact heq ▸ hle

/-! ### One step -/

/-- Nothing has been declared. -/
theorem nil (listing : Listing) : Nested listing 0 [] [] := by
  constructor <;> simp [firstLines, lastLineAt]

theorem advance {line' : Nat} (h : Nested listing line blocks outlines) (hle : line ≤ line') :
    Nested listing line' blocks outlines where
  ascending := h.ascending
  reached n hn := ⟨(h.reached n hn).1, by have := (h.reached n hn).2; omega⟩
  inward := h.inward
  within := h.within
  pending := h.pending
  closed o ho := by
    rcases h.closed o ho with hnone | ⟨last, hlast, hspans⟩
    · exact .inl hnone
    · exact .inr ⟨last, by omega, hspans⟩
  beyond := h.beyond
  apart := h.apart

/-- An element is declared on the line reached. -/
theorem append (h : Nested listing line blocks outlines) (hfirst : o.firstLine = line + 1)
    (hlast : o.lastLine = none) : Nested listing line blocks (outlines ++ [o]) where
  ascending := by
    rw [firstLines_append, List.pairwise_append]
    refine ⟨h.ascending, List.pairwise_singleton _ _, ?_⟩
    intro n hn m hm
    rw [List.mem_singleton.mp hm, hfirst]
    exact (h.reached n hn).2
  reached n hn := by
    rw [firstLines_append] at hn
    rcases List.mem_append.mp hn with hn | hn
    · exact h.reached n hn
    · rw [List.mem_singleton.mp hn, hfirst]
      omega
  inward := h.inward
  within := h.within
  pending c hc := by
    obtain ⟨o', ho', hrest⟩ := h.pending c hc
    exact ⟨o', by rw [List.getElem?_append_left (h.position_lt hc), ho'], hrest⟩
  closed o' ho' := by
    rcases List.mem_append.mp ho' with ho' | ho'
    · exact h.closed o' ho'
    · rw [List.mem_singleton.mp ho']
      exact .inl hlast
  beyond i last hi := by
    rw [lastLineAt_append hlast] at hi
    exact h.beyond i last hi
  apart i j last last' first hij hi hj hfirst := by
    rw [lastLineAt_append hlast] at hi hj
    have hjlt : j < (firstLines outlines).length := by
      obtain ⟨o', ho', -⟩ := Option.bind_eq_some_iff.mp hj
      simpa [firstLines] using (List.getElem?_eq_some_iff.mp ho').1
    rw [firstLines_append, List.getElem?_append_left hjlt] at hfirst
    exact h.apart i j last last' first hij hi hj hfirst

/-- The block of the newest element is opened on the line reached. -/
theorem push (h : Nested listing line blocks outlines)
    (ho : outlines[b.position]? = some o) (hstart : b.start = line)
    (hwithin : b.start < listing.raw.length) (hfirst : o.firstLine = b.start + 1)
    (hlast : o.lastLine = none) (hpos : ∀ c ∈ blocks, c.position < b.position) :
    Nested listing line (b :: blocks) outlines where
  ascending := h.ascending
  reached := h.reached
  inward := List.pairwise_cons.mpr ⟨hpos, h.inward⟩
  within := List.forall_mem_cons.mpr ⟨hwithin, h.within⟩
  pending := List.forall_mem_cons.mpr ⟨⟨o, ho, hfirst, hlast⟩, h.pending⟩
  closed := h.closed
  beyond i last hi := by
    refine List.forall_mem_cons.mpr ⟨fun _ => ?_, h.beyond i last hi⟩
    rw [hstart]
    exact h.last_le hi
  apart := h.apart

/-- The innermost block is closed on the line reached. -/
theorem pop (h : Nested listing line (b :: blocks) outlines) (hline : line ≤ listing.last) :
    Nested listing line blocks ((b.closeFact listing line).redraw outlines) := by
  obtain ⟨o, ho, hfirst, -⟩ := h.pending b List.mem_cons_self
  obtain ⟨hinner, hinward⟩ := List.pairwise_cons.mp h.inward
  obtain ⟨hstart, hwithin⟩ := List.forall_mem_cons.mp h.within
  have hreached : b.start + 1 ≤ line + 1 := by
    have hmem : o.firstLine ∈ firstLines outlines :=
      List.mem_map_of_mem (List.mem_of_getElem? ho)
    exact hfirst ▸ (h.reached _ hmem).2
  have hmin : min line listing.last = line := Nat.min_eq_left hline
  have hmax : max line b.start = line := Nat.max_eq_left (by omega)
  simp only [Block.closeFact, Fact.redraw, hmin, hmax]
  refine ⟨by simpa using h.ascending, by simpa using h.reached, hinward, hwithin, ?_, ?_, ?_, ?_⟩
  · intro c hc
    obtain ⟨o', ho', hrest⟩ := h.pending c (List.mem_cons_of_mem _ hc)
    have hne : b.position ≠ c.position := by have := hinner c hc; omega
    refine ⟨o', ?_, hrest⟩
    rw [List.getElem?_modify, ho']
    simp [hne]
  · intro o' ho'
    rcases mem_close ho' with ho' | ⟨o'', ho'', rfl⟩
    · exact h.closed o' ho'
    · obtain rfl : o'' = o := Option.some_inj.mp (ho''.symm.trans ho)
      refine .inr ⟨line + 1, le_rfl, rfl, ?_, ?_, ?_, ?_⟩
      · simp [Outline.close, hfirst]
      · simpa [Outline.close, hfirst] using hreached
      · unfold Listing.last at hline
        omega
      · simp only [Outline.close, hfirst, Listing.span, Nat.add_sub_cancel]
        congr 2
        omega
  · -- an outer block starts before this one, so that this one has no bearing on it
    intro i last hi c hc hic
    rw [lastLineAt_close ho] at hi
    have hlt := hinner c hc
    rw [if_neg (by omega)] at hi
    exact h.beyond i last hi c (List.mem_cons_of_mem _ hc) hic
  · intro i j last last' first hij hi hj hjfirst
    rw [firstLines_close] at hjfirst
    rw [lastLineAt_close ho] at hi hj
    split at hi
    · -- the later block was closed on a line before
      rw [if_neg (by omega)] at hj
      have hlast : line + 1 = last := json_nat_inj (Option.some_inj.mp hi)
      exact .inl (hlast ▸ h.last_le hj)
    · split at hj
      · -- the block that is closed now was open when the earlier one had ended
        next hp =>
        subst hp
        have hbegin : first = b.start + 1 := by
          simpa [firstLines, ho, hfirst] using hjfirst.symm
        exact .inr (hbegin ▸ h.beyond i last hi b List.mem_cons_self hij)
      · exact h.apart i j last last' first hij hi hj hjfirst

theorem settled_pop (h : Nested listing line (b :: blocks) outlines) {p : Nat}
    (hp : Settled (b :: blocks) outlines p) :
    Settled blocks ((b.closeFact listing line).redraw outlines) p := by
  obtain ⟨o, ho, -⟩ := h.pending b List.mem_cons_self
  unfold Settled Block.closeFact Fact.redraw
  rw [lastLineAt_close ho]
  by_cases hb : b.position = p
  · simp [hb]
  · rw [if_neg hb]
    rcases hp with ⟨c, hc, rfl⟩ | hp
    · rcases List.mem_cons.mp hc with rfl | hc
      · exact absurd rfl hb
      · exact .inl ⟨c, hc, rfl⟩
    · exact .inr hp

theorem typesSettled_pop (h : Nested listing line (b :: blocks) outlines)
    (htypes : TypesSettled (b :: blocks) outlines) :
    TypesSettled blocks ((b.closeFact listing line).redraw outlines) := by
  intro i o ho htype
  apply h.settled_pop
  simp only [Block.closeFact, Fact.redraw, List.getElem?_modify] at ho
  obtain ⟨o', ho', rfl⟩ := Option.map_eq_some_iff.mp ho
  refine htypes i o' ho' ?_
  split at htype <;> exact htype

/-- All blocks that are open at the end are closed on the last line. -/
theorem closeAll (h : Nested listing listing.last blocks outlines)
    (htypes : TypesSettled blocks outlines) :
    let ended := redrawAll outlines (blocks.map (Block.closeFact listing listing.last))
    Nested listing listing.last [] ended ∧ TypesSettled [] ended ∧
      ∀ p, Settled blocks outlines p → Settled [] ended p := by
  induction blocks generalizing outlines with
  | nil => exact ⟨h, htypes, fun p hp => hp⟩
  | cons b rest ih =>
    obtain ⟨hnested, hended, hsettled⟩ := ih (h.pop le_rfl) (h.typesSettled_pop htypes)
    exact ⟨hnested, hended, fun p hp => hsettled p (h.settled_pop hp)⟩

end Nested

/-! ## Reading a source -/

/-- The invariant for a state of the reader and the outlines drawn so far. -/
structure Tracked (t : Document) (line : Nat) (s : State) (outlines : List Outline) : Prop where
  count : outlines.length = s.declared + 1
  nested : Nested t.listing line s.blocks outlines
  types : TypesSettled s.blocks outlines

theorem Settled.append {blocks : List Block} {outlines : List Outline} {o : Outline} {p : Nat}
    (h : Settled blocks outlines p) (hlast : o.lastLine = none) :
    Settled blocks (outlines ++ [o]) p := by
  unfold Settled
  rw [lastLineAt_append hlast]
  exact h

theorem Settled.push {blocks : List Block} {outlines : List Outline} {b : Block} {p : Nat}
    (h : Settled blocks outlines p) : Settled (b :: blocks) outlines p := by
  rcases h with ⟨c, hc, rfl⟩ | h
  · exact .inl ⟨c, List.mem_cons_of_mem _ hc, rfl⟩
  · exact .inr h

namespace Tracked

variable {t : Document} {line : Nat} {s : State} {outlines : List Outline}

/-- An outline among those there and a new one is the new one only at the end. -/
theorem types_append (h : Tracked t line s outlines) {o : Outline} (hlast : o.lastLine = none)
    {i : Nat} {o' : Outline} (ho' : (outlines ++ [o])[i]? = some o') (htype : o'.kind.IsType) :
    Settled s.blocks (outlines ++ [o]) i ∨ (i = outlines.length ∧ o' = o) := by
  rcases Nat.lt_or_ge i outlines.length with hi | hi
  · rw [List.getElem?_append_left hi] at ho'
    exact .inl ((h.types i o' ho' htype).append hlast)
  · rw [List.getElem?_append_right hi, List.getElem?_singleton] at ho'
    split at ho'
    · exact .inr ⟨by omega, (Option.some_inj.mp ho').symm⟩
    · cases ho'

/-- Each effect keeps the invariant and what is settled. -/
theorem step {step : State × List Fact} (h : Tracked t line s outlines)
    {calls : String → Prop} (hline : line < t.listing.raw.length)
    (heffect : Effect t s line calls step) :
    Tracked t line step.1 (redrawAll outlines step.2) ∧
      ∀ p, Settled s.blocks outlines p → Settled step.1.blocks (redrawAll outlines step.2) p := by
  cases heffect with
  | pass hblocks hopen hdeclared hfacts =>
    rw [hfacts.quiet.redrawAll_eq, hblocks]
    exact ⟨⟨h.count.trans (by rw [hdeclared]), hblocks ▸ h.nested, hblocks ▸ h.types⟩,
      fun p hp => hp⟩
  | @declare s' d facts hblocks hopen hdeclared hkind hheads =>
    have hfirst := hheads.firstLine_eq
    have hlast := hheads.lastLine_eq
    rw [redrawAll_cons, hheads.regular.quiet.redrawAll_eq, hblocks]
    refine ⟨⟨?_, hblocks ▸ h.nested.append hfirst hlast, ?_⟩, fun p hp => hp.append hlast⟩
    · simp [Fact.redraw, h.count, hdeclared]
    · intro i o ho htype
      rw [hblocks]
      rcases h.types_append hlast ho htype with hsettled | ⟨-, rfl⟩
      · exact hsettled
      · change d.kind.IsType at htype
        rcases hkind with hkind | hkind <;> simp [hkind] at htype
  | @enter s' d facts hblocks hopen hdeclared hkind hheads =>
    have hfirst := hheads.firstLine_eq
    have hlast := hheads.lastLine_eq
    rw [redrawAll_cons, hheads.regular.quiet.redrawAll_eq, hblocks, ← h.count]
    refine ⟨⟨?_, ?_, ?_⟩, fun p hp => (hp.append hlast).push⟩
    · simp [Fact.redraw, h.count, hdeclared]
    · rw [hblocks, ← h.count]
      refine (h.nested.append hfirst hlast).push (o := d.outline) ?_ rfl hline hfirst hlast ?_
      · exact List.getElem?_concat_length
      · exact fun c hc => h.nested.position_lt hc
    · intro i o ho htype
      rw [hblocks, ← h.count]
      rcases h.types_append hlast ho htype with hsettled | ⟨rfl, -⟩
      · exact hsettled.push
      · exact .inl ⟨_, List.mem_cons_self, rfl⟩
  | @close s' b hblocks hopen hdeclared =>
    have hnested := h.nested
    rw [hblocks] at hnested ⊢
    rw [redrawAll_cons, redrawAll_nil]
    refine ⟨⟨?_, hnested.pop (Nat.le_sub_one_of_lt hline), hnested.typesSettled_pop ?_⟩,
      fun p hp => hnested.settled_pop hp⟩
    · simp [Block.closeFact, Fact.redraw, h.count, hdeclared]
    · exact hblocks ▸ h.types

/-- Reading statements from top to bottom keeps the invariant and what is settled. -/
theorem readAll {statements : List (Nat × String)} (h : Tracked t line s outlines)
    (hline : line ≤ t.listing.last) (hsorted : statements.Pairwise (·.1 ≤ ·.1))
    (hstatements : ∀ st ∈ statements, line ≤ st.1 ∧ st.1 < t.listing.raw.length) :
    Tracked t t.listing.last (VisualBasic.readAll t s statements).1
        (redrawAll outlines (VisualBasic.readAll t s statements).2) ∧
      (∀ p, Settled s.blocks outlines p →
        Settled (VisualBasic.readAll t s statements).1.blocks
          (redrawAll outlines (VisualBasic.readAll t s statements).2) p) ∧
      ∀ n, ∀ b ∈ (VisualBasic.readAll t s (statements.take n)).1.blocks,
        Settled (VisualBasic.readAll t s statements).1.blocks
          (redrawAll outlines (VisualBasic.readAll t s statements).2) b.position := by
  induction statements generalizing s line outlines with
  | nil =>
    refine ⟨⟨h.count, h.nested.advance hline, h.types⟩, fun p hp => hp, ?_⟩
    intro n b hb
    rw [List.take_nil] at hb
    exact .inl ⟨b, hb, rfl⟩
  | cons st rest ih =>
    obtain ⟨hhead, hrest⟩ := List.pairwise_cons.mp hsorted
    obtain ⟨hle, hst⟩ := hstatements st List.mem_cons_self
    have hadvanced : Tracked t st.1 s outlines := ⟨h.count, h.nested.advance hle, h.types⟩
    obtain ⟨hstep, hkept⟩ := hadvanced.step hst (.statementStep t s st.1 st.2)
    have hlater (st' : Nat × String) (hst' : st' ∈ rest) :
        st.1 ≤ st'.1 ∧ st'.1 < t.listing.raw.length :=
      ⟨hhead st' hst', (hstatements st' (List.mem_cons_of_mem _ hst')).2⟩
    obtain ⟨htracked, hsettled, hopened⟩ :=
      ih hstep (Nat.le_sub_one_of_lt hst) hrest hlater
    simp only [VisualBasic.readAll, redrawAll_append]
    refine ⟨htracked, fun p hp => hsettled p (hkept p hp), ?_⟩
    intro n b hb
    cases n with
    | zero => exact hsettled _ (hkept _ (.inl ⟨b, hb, rfl⟩))
    | succ n => exact hopened n b hb

end Tracked

/-! ## The whole source -/

theorem statements_sorted (listing : Listing) :
    (statements listing).Pairwise (·.1 ≤ ·.1) := by
  have hlines : listing.code.zipIdx.Pairwise fun a b => a.2 ≤ b.2 := by
    have hrange := List.pairwise_le_range' (s := 0) (n := listing.code.length)
    rw [← List.zipIdx_map_snd, List.pairwise_map] at hrange
    exact hrange
  unfold statements
  rw [List.pairwise_flatMap]
  constructor
  · intro line _
    rw [List.pairwise_map]
    exact List.pairwise_of_forall fun _ _ => le_rfl
  · refine hlines.imp ?_
    intro a b hle x hx y hy
    obtain ⟨_, _, rfl⟩ := List.mem_map.mp hx
    obtain ⟨_, _, rfl⟩ := List.mem_map.mp hy
    exact hle

theorem lt_of_mem_statements {listing : Listing} {st : Nat × String}
    (h : st ∈ statements listing) : st.1 < listing.code.length := by
  obtain ⟨line, hline, hst⟩ := List.mem_flatMap.mp h
  obtain ⟨_, _, rfl⟩ := List.mem_map.mp hst
  exact (List.mem_zipIdx' hline).1

theorem flatMap_closeFacts (listing : Listing) (line : Nat) (scopes : List Scope) :
    scopes.flatMap (State.closeFacts listing line) =
      (scopes.filterMap Scope.block?).map (Block.closeFact listing line) := by
  induction scopes with
  | nil => rfl
  | cons scope rest ih =>
    rw [List.flatMap_cons, ih, closeFacts_eq]
    cases hblock : scope.block? <;> simp [hblock]

/-- Whether the element at a position opens a block: the block is open after some statement. -/
def OpensBlock (path text : String) (position : Nat) : Prop :=
  ∃ n, ∃ b ∈ (readAll ⟨path, .ofText "'" text⟩ {}
    ((statements (.ofText "'" text)).take n)).1.blocks, b.position = position

/-- The invariant at the end of a source: no block is open any more, and the block of every type and
every block that was opened has ended. -/
theorem nested_facts (path text : String) (file : Outline) (hkind : ¬ file.kind.IsType)
    (hfirst : file.firstLine = 1) (hlast : file.lastLine = none) :
    let outlines := redrawAll [file] (facts path text)
    let listing := Listing.ofText "'" text
    Nested listing listing.last [] outlines ∧ TypesSettled [] outlines ∧
      ∀ p, OpensBlock path text p → Settled [] outlines p := by
  intro outlines listing
  let t : Document := ⟨path, listing⟩
  have hstart : Tracked t 0 {} [file] := by
    refine ⟨rfl, (Nested.nil listing).append hfirst hlast, ?_⟩
    intro i o ho htype
    obtain rfl : o = file := List.mem_singleton.mp (List.mem_of_getElem? ho)
    exact absurd htype hkind
  have hbounds (st : Nat × String) (hst : st ∈ statements listing) :
      0 ≤ st.1 ∧ st.1 < listing.raw.length :=
    ⟨Nat.zero_le _, by simpa [listing, Listing.ofText] using lt_of_mem_statements hst⟩
  obtain ⟨htracked, -, hopened⟩ :=
    hstart.readAll (Nat.zero_le _) (statements_sorted listing) hbounds
  obtain ⟨hnested, htypes, hsettled⟩ := htracked.nested.closeAll htracked.types
  have houtlines : outlines = redrawAll (redrawAll [file] (readAll t {} (statements listing)).2)
      ((readAll t {} (statements listing)).1.blocks.map
        (Block.closeFact listing listing.last)) := by
    simp only [outlines, facts, redrawAll_append, flatMap_closeFacts]
    rfl
  rw [houtlines]
  refine ⟨hnested, htypes, ?_⟩
  rintro p ⟨n, b, hb, rfl⟩
  exact hsettled b.position (hopened n b hb)

/-! ## Spans of elements -/

/-- The block of an element ends in a text, and the element holds the text of its block. -/
def Spanned (lines : List String) (e : Element) : Prop := ∃ last, e.outline.Spans lines last

section Elements

variable {listing : Listing} {line : Nat} {r : Report} {i j : Nat} {e e' : Element}

theorem firstLines_outlines (h : r.elements[i]? = some e) :
    (firstLines r.outlines)[i]? = some e.lineNumber := by
  simp only [firstLines, List.getElem?_map, Report.getElem?_outlines]
  rw [h]
  rfl

theorem lastLineAt_outlines (h : r.elements[i]? = some e) :
    lastLineAt r.outlines i = e.metadata.get? "end_line" := by
  simp only [lastLineAt, Report.getElem?_outlines]
  rw [h]
  rfl

/-- When no block is open any more, what is settled has a span. -/
theorem Nested.exists_spanned (h : Nested listing line [] r.outlines)
    (hi : Settled [] r.outlines i) : ∃ e, r.elements[i]? = some e ∧ Spanned listing.raw e := by
  rcases hi with ⟨b, hb, -⟩ | hi
  · exact absurd hb List.not_mem_nil
  · obtain ⟨json, hjson⟩ := Option.ne_none_iff_exists'.mp hi
    obtain ⟨o, ho, hlast⟩ := Option.bind_eq_some_iff.mp hjson
    rcases h.closed o (List.mem_of_getElem? ho) with hnone | ⟨last, -, hspans⟩
    · simp [hnone] at hlast
    · rw [Report.getElem?_outlines] at ho
      obtain ⟨e, he, rfl⟩ := Option.map_eq_some_iff.mp ho
      exact ⟨e, he, last, hspans⟩

/-- Earlier elements do not start after later ones. -/
theorem Nested.lineNumber_le (h : Nested listing line [] r.outlines) (hij : i < j)
    (hi : r.elements[i]? = some e) (hj : r.elements[j]? = some e') :
    e.lineNumber ≤ e'.lineNumber := by
  obtain ⟨hilt, hieq⟩ := List.getElem?_eq_some_iff.mp (firstLines_outlines hi)
  obtain ⟨hjlt, hjeq⟩ := List.getElem?_eq_some_iff.mp (firstLines_outlines hj)
  have hle := List.pairwise_iff_getElem.mp h.ascending i j hilt hjlt hij
  rwa [hieq, hjeq] at hle

end Elements

section Survey

variable (settings : Settings) (fs : FileSystem) (source : Source)

theorem outlines_survey (hlive : source.cancelled = false) :
    (survey settings fs source).outlines =
      redrawAll [⟨.file, source.path, 1, none, source.content, none⟩]
        (facts source.path source.content) := by
  simp only [survey, hlive, Bool.false_eq_true, if_false]
  rw [Report.outlines_detect, Report.outlines_recordAll, Report.outlines_opening]
  rfl

/-- The spans of blocks are properly nested in every source, well-formed or not. Every type and every
element that opens a block has a span, and of any two elements with spans the later one lies within
the earlier one or starts where that one has ended. -/
theorem spans_nested (hlive : source.cancelled = false) :
    (∀ e ∈ (survey settings fs source).elements, e.kind.IsType →
      Spanned (Text.lines source.content) e) ∧
      (∀ p, OpensBlock source.path source.content p →
        ∃ e, (survey settings fs source).elements[p]? = some e ∧
          Spanned (Text.lines source.content) e) ∧
      ∀ (i j : Nat) (e e' : Element) (last last' : Nat), i < j →
        (survey settings fs source).elements[i]? = some e →
        (survey settings fs source).elements[j]? = some e' →
        e.metadata.get? "end_line" = some (.nat last) →
        e'.metadata.get? "end_line" = some (.nat last') →
        e.lineNumber ≤ e'.lineNumber ∧ (last' ≤ last ∨ last ≤ e'.lineNumber) := by
  obtain ⟨hnested, htypes, hopened⟩ := nested_facts source.path source.content
    ⟨.file, source.path, 1, none, source.content, none⟩ nofun rfl rfl
  rw [← outlines_survey settings fs source hlive] at hnested htypes hopened
  refine ⟨?_, fun p hp => hnested.exists_spanned (hopened p hp), ?_⟩
  · intro e he htype
    obtain ⟨i, hi⟩ := List.mem_iff_getElem?.mp he
    obtain ⟨e', he', hspanned⟩ := hnested.exists_spanned (htypes i e.outline (by simp [hi]) htype)
    obtain rfl : e' = e := by simpa [hi] using he'.symm
    exact hspanned
  · intro i j e e' last last' hij hi hj hlast hlast'
    refine ⟨hnested.lineNumber_le hij hi hj, ?_⟩
    exact hnested.apart i j last last' _ hij ((lastLineAt_outlines hi).trans hlast)
      ((lastLineAt_outlines hj).trans hlast') (firstLines_outlines hj)

end Survey

/-- A line on which two blocks end and a third one begins, which is never closed. -/
def sharedLine : Source where
  path := "a.vb"
  content := "Class A\nSub F()\nEnd Sub : End Class : Class B"

/-- The method opens a block and ends with the line that it shares with two classes. -/
theorem spans_sharedLine :
    sharedLine.cancelled = false ∧ OpensBlock sharedLine.path sharedLine.content 2 ∧
      (∃ e, (survey {} {} sharedLine).elements[2]? = some e ∧
        Spanned (Text.lines sharedLine.content) e) ∧
      (survey {} {} sharedLine).elements.tail.map (fun e => (e.name, e.content)) =
        [("A", sharedLine.content), ("A.F", "Sub F()\nEnd Sub : End Class : Class B"),
          ("B", "End Sub : End Class : Class B")] := by
  have hopens : OpensBlock sharedLine.path sharedLine.content 2 := ⟨2, ⟨1, 2⟩, by decide +kernel, rfl⟩
  obtain ⟨-, hspanned, -⟩ := spans_nested {} {} sharedLine rfl
  exact ⟨rfl, hopens, hspanned 2 hopens, by decide +kernel⟩

end VisualBasic

end CodeSurvey
