import CodeSurvey.Proofs.Dart.Nesting
import CodeSurvey.Proofs.Naming.Basic

/-!
# Names in sources read line by line

In Visual Basic a declaration stands inside of the types that are open when its statement is read. In
Dart it stands inside of a type if its lines lie between the first and the last line of the type.
Either way it is declared in the name of the innermost of them.
-/

namespace CodeSurvey

/-! ## Visual Basic -/

namespace VisualBasic

variable {t : Document} {s : State}

/-! ### The run through a source -/

/-- A statement with the state in which it is read. -/
structure Moment where
  state : State
  line : Nat
  statement : String

def Moment.results (t : Document) (m : Moment) : List Fact :=
  (statementStep t m.state m.line m.statement).2

/-- The moments of reading statements one after the other. -/
def moments (t : Document) (s : State) : List (Nat × String) → List Moment
  | [] => []
  | (line, statement) :: rest =>
    ⟨s, line, statement⟩ :: moments t (statementStep t s line statement).1 rest

theorem facts_readAll (statements : List (Nat × String)) :
    (readAll t s statements).2 = (moments t s statements).flatMap (Moment.results t) := by
  induction statements generalizing s with
  | nil => rfl
  | cons statement rest ih =>
    rw [moments, List.flatMap_cons, ← ih]
    rfl

/-- The type of the second moment is open at the first. -/
def Moment.Inside (m p : Moment) : Prop := ∃ name, (name, p.state.declared + 1) ∈ m.state.openTypes

/-- The open types of a state: each was declared at one of the moments, and the more inner ones
later. -/
structure Rooted (t : Document) (all : List Moment) (s : State) : Prop where
  le_declared : ∀ x ∈ s.openTypes, x.2 ≤ s.declared
  sorted : s.openTypes.Pairwise fun x y => y.2 < x.2
  origin : ∀ x ∈ s.openTypes, ∃ m ∈ all, m.state.declared + 1 = x.2 ∧
    leadingType? (m.results t) = some x.1

/-- One statement keeps the open types rooted. -/
theorem Rooted.step {all : List Moment} {m : Moment} (h : Rooted t all m.state) (hm : m ∈ all) :
    Rooted t all (statementStep t m.state m.line m.statement).1 := by
  have heffect : Effect t m.state m.line (plainName? m.statement = some ·)
      ((statementStep t m.state m.line m.statement).1, m.results t) :=
    .statementStep t m.state m.line m.statement
  generalize (statementStep t m.state m.line m.statement).1 = s' at heffect ⊢
  generalize hfacts : m.results t = facts at heffect
  have hmore (x : String × Nat) (hx : x ∈ m.state.openTypes) : x.2 ≤ m.state.declared + 1 :=
    (h.le_declared x hx).trans (Nat.le_succ _)
  cases heffect with
  | pass hblocks hopen hdeclared _ =>
    exact ⟨by rw [hopen, hdeclared]; exact h.le_declared, hopen ▸ h.sorted, hopen ▸ h.origin⟩
  | declare hblocks hopen hdeclared _ _ =>
    exact ⟨by rw [hopen, hdeclared]; exact hmore, hopen ▸ h.sorted, hopen ▸ h.origin⟩
  | enter hblocks hopen hdeclared _ _ =>
    split at hopen
    · next htype =>
      refine ⟨?_, ?_, ?_⟩
      · rw [hopen, hdeclared, List.forall_mem_cons]
        exact ⟨le_rfl, hmore⟩
      · rw [hopen, List.pairwise_cons]
        exact ⟨fun x hx => Nat.lt_succ_of_le (h.le_declared x hx), h.sorted⟩
      · rw [hopen, List.forall_mem_cons]
        refine ⟨⟨m, hm, rfl, ?_⟩, h.origin⟩
        rw [hfacts]
        exact if_pos htype
    · exact ⟨by rw [hopen, hdeclared]; exact hmore, hopen ▸ h.sorted, hopen ▸ h.origin⟩
  | close hblocks hopen hdeclared =>
    refine ⟨?_, h.sorted.sublist hopen.sublist, fun x hx => h.origin x (hopen.subset hx)⟩
    rw [hdeclared]
    exact fun x hx => h.le_declared x (hopen.subset hx)

/-- The open types are rooted at every moment of a run. -/
theorem Rooted.moments {all : List Moment} (statements : List (Nat × String)) (h : Rooted t all s)
    (hsub : moments t s statements ⊆ all) : ∀ m ∈ moments t s statements, Rooted t all m.state := by
  induction statements generalizing s with
  | nil => simp [VisualBasic.moments]
  | cons statement rest ih =>
    obtain ⟨hfirst, hrest⟩ := List.cons_subset.mp hsub
    rw [VisualBasic.moments, List.forall_mem_cons]
    exact ⟨h, ih (h.step hfirst) hrest⟩

/-- The owner at a moment is the innermost type that is open. -/
theorem ownedAmong_moments {all : List Moment} {m : Moment}
    (hall : ∀ p ∈ all, Rooted t all p.state) (hm : m ∈ all) :
    OwnedAmong (Moment.results t) all Moment.Inside t.path (m.state.owner t.path) m := by
  have hrooted := hall m hm
  rw [State.owner_eq]
  cases hopen : m.state.openTypes with
  | nil =>
    refine .inl ⟨rfl, ?_⟩
    rintro p - - ⟨name, hname⟩
    rw [hopen] at hname
    cases hname
  | cons x rest =>
    have hx : x ∈ m.state.openTypes := hopen ▸ List.mem_cons_self
    obtain ⟨p, hp, hposition, htype⟩ := hrooted.origin x hx
    refine .inr ⟨p, hp, htype, ⟨x.1, hposition ▸ hx⟩, ?_⟩
    -- a type that is open here was declared no later than the innermost one
    rintro q hq - ⟨name, hname⟩ ⟨name', hname'⟩
    have hsorted := hrooted.sorted
    rw [hopen] at hname hsorted
    have hle : q.state.declared + 1 ≤ x.2 := by
      rcases List.mem_cons.mp hname with rfl | hname
      · exact le_rfl
      · exact ((List.pairwise_cons.mp hsorted).1 _ hname).le
    have hlt := (hall q hq).le_declared _ hname'
    dsimp only at hlt
    omega

section Survey

variable (settings : Settings) (fs : FileSystem) (source : Source)

def Document.ofSource (source : Source) : Document := ⟨source.path, .ofText "'" source.content⟩

def run (source : Source) : List Moment :=
  if source.cancelled then []
  else moments (.ofSource source) {} (statements (Document.ofSource source).listing)

/-- The declarations of a source by the moments at which their statements are read. -/
def layout : Layout :=
  .ofSteps (Moment.results (.ofSource source)) (run source)
    (fun m plain => plainName? m.statement = some plain) Moment.Inside

theorem imprints_survey :
    (survey settings fs source).imprints =
      ((run source).flatMap (Moment.results (.ofSource source))).flatMap Fact.imprints := by
  refine (imprints_surveyOfLines settings fs source _ _ _).trans ?_
  rw [run]
  split
  · rfl
  · have hclosed : AllPlain ((readAll (.ofSource source) {}
        (statements (Document.ofSource source).listing)).1.scopes.flatMap
          (State.closeFacts (Document.ofSource source).listing
            (Document.ofSource source).listing.last)) := by simp
    have hfacts : facts source.path source.content =
        (readAll (.ofSource source) {} (statements (Document.ofSource source).listing)).2 ++ _ := rfl
    rw [← facts_readAll, hfacts, List.flatMap_append]
    exact (congrArg _ (AllPlain.imprints_eq hclosed)).trans (List.append_nil _)

theorem names_survey : (layout source).Names source.path (survey settings fs source) := by
  have hstated (m : Moment) (_ : m ∈ run source) :=
    (Effect.statementStep (.ofSource source) m.state m.line m.statement).stated
  have himprints := (imprints_survey settings fs source).trans (flatMap_imprints hstated)
  refine Layout.names_of_entries map_fst_entriesOf.symm himprints
    (Layout.named_ofSteps hstated fun m hm => ?_)
  refine ownedAmong_moments (t := .ofSource source) ?_ hm
  unfold run
  split
  · simp
  · exact Rooted.moments _ ⟨by simp [State.openTypes], by simp [State.openTypes],
      by simp [State.openTypes]⟩ (List.Subset.refl _)

end Survey

end VisualBasic

/-! ## Dart -/

namespace Dart

variable {t : Document}

/-! ### Reading a source in steps -/

/-- A declaration that is read, with the owner and the types of the fields of its range. -/
structure Step where
  owner : String
  types : FieldTypes
  member : Member

/-- What a declaration by itself states, a type without what it owns. -/
def Step.results (t : Document) (n : Step) : List Fact :=
  if n.member.shape = .field then (fieldFacts t n.owner n.member).1
  else if n.member.shape = .type then
    ((typeHead.find? (declarationText t.listing n.member.start)).map
      (headFacts t n.owner n.member)).getD []
  else memberFacts t n.owner n.types n.member

namespace Range

variable {r inner : Range} {m : Member}

def step (t : Document) (r : Range) (m : Member) : Step := ⟨r.owner, r.fieldTypes t, m⟩

/-- The range of what a member of a range owns. -/
def inner? (t : Document) (r : Range) (m : Member) : Option Range :=
  if m.shape = .type then
    (typeHead.find? (declarationText t.listing m.start)).map fun head =>
      ⟨typeName t r.owner head, m.start + 1, m.stop⟩
  else none

theorem bounds_of_inner? (h : r.inner? t m = some inner) :
    inner.start = m.start + 1 ∧ inner.stop = m.stop := by
  unfold inner? at h
  split at h
  · obtain ⟨head, -, rfl⟩ := Option.map_eq_some_iff.mp h
    exact ⟨rfl, rfl⟩
  · cases h

theorem enters_of_inner? (hm : m ∈ r.members t) (h : r.inner? t m = some inner) :
    Enters t inner r := by
  unfold inner? at h
  split at h
  · next htype =>
    obtain ⟨head, hhead, rfl⟩ := Option.map_eq_some_iff.mp h
    exact ⟨m, hm, htype, head, hhead, rfl⟩
  · cases h

end Range

/-- The steps of reading a range: fields first, and then the other declarations, each type with the
steps of what it owns. -/
def steps (t : Document) (r : Range) : List Step :=
  ((r.members t).filter (·.shape = .field)).map (r.step t) ++
    (r.members t).attach.flatMap fun m =>
      if m.1.shape = .field then []
      else r.step t m.1 ::
        match _hinner : r.inner? t m.1 with
        | none => []
        | some inner => steps t inner
termination_by r.stop - r.start
decreasing_by
  have hbounds := bounds_of_mem_members m.2
  have hinner := Range.bounds_of_inner? _hinner
  omega

variable {r : Range} {m : Member} {n p : Step}

theorem steps_eq (t : Document) (r : Range) :
    steps t r = ((r.members t).filter (·.shape = .field)).map (r.step t) ++
      (r.members t).flatMap fun m =>
        if m.shape = .field then [] else r.step t m :: ((r.inner? t m).map (steps t)).getD [] := by
  rw [steps]
  congr 1
  conv_rhs => rw [← List.attach_map_subtype_val (r.members t), List.flatMap_map]
  refine List.flatMap_congr fun m _ => ?_
  split
  · rfl
  · congr 1
    split
    · next h => rw [h]; rfl
    · next inner h => rw [h]; rfl

/-- The steps of a range are those for its members and those of the ranges inside of them. -/
theorem mem_steps :
    n ∈ steps t r ↔ (∃ m ∈ r.members t, r.step t m = n) ∨
      ∃ m ∈ r.members t, ∃ inner, r.inner? t m = some inner ∧ n ∈ steps t inner := by
  rw [steps_eq]
  simp only [List.mem_append, List.mem_map, List.mem_filter, List.mem_flatMap]
  constructor
  · rintro (⟨m, ⟨hm, -⟩, rfl⟩ | ⟨m, hm, hn⟩)
    · exact .inl ⟨m, hm, rfl⟩
    · split at hn
      · cases hn
      · rcases List.mem_cons.mp hn with rfl | hn
        · exact .inl ⟨m, hm, rfl⟩
        · cases hinner : r.inner? t m with
          | none =>
            rw [hinner] at hn
            cases hn
          | some inner =>
            rw [hinner] at hn
            exact .inr ⟨m, hm, inner, hinner, hn⟩
  · rintro (⟨m, hm, rfl⟩ | ⟨m, hm, inner, hinner, hn⟩)
    · by_cases hfield : m.shape = .field
      · exact .inl ⟨m, ⟨hm, decide_eq_true hfield⟩, rfl⟩
      · refine .inr ⟨m, hm, ?_⟩
        rw [if_neg hfield]
        exact List.mem_cons_self
    · have hfield : m.shape ≠ .field := by
        intro hfield
        simp [Range.inner?, hfield] at hinner
      refine .inr ⟨m, hm, ?_⟩
      rw [if_neg hfield, hinner]
      exact List.mem_cons_of_mem _ hn

/-- A range states what its steps state. -/
theorem rangeFacts_eq_flatMap_steps (t : Document) (r : Range) :
    rangeFacts t r.owner r.start r.stop = (steps t r).flatMap (Step.results t) := by
  induction r using (wellFounded_enters t).induction with
  | _ r ih =>
    rw [rangeFacts_eq, steps_eq, List.flatMap_append, List.flatMap_map, List.flatMap_assoc]
    congr 1
    · refine List.flatMap_congr fun m hm => ?_
      have hfield : m.shape = .field := of_decide_eq_true (List.mem_filter.mp hm).2
      simp [Step.results, Range.step, hfield]
    · refine List.flatMap_congr fun m hm => ?_
      by_cases hfield : m.shape = .field
      · simp [laterFacts, memberFacts, hfield]
      · have hresults : (r.step t m).results t = if m.shape = .type then _ else _ := if_neg hfield
        rw [if_neg hfield, List.flatMap_cons, hresults, laterFacts]
        by_cases htype : m.shape = .type
        · rw [if_pos htype, if_pos htype]
          cases hhead : typeHead.find? (declarationText t.listing m.start) with
          | none => simp [Range.step, Range.inner?, htype, hhead]
          | some head =>
            have hinner : r.inner? t m = some ⟨typeName t r.owner head, m.start + 1, m.stop⟩ := by
              rw [Range.inner?, if_pos htype, hhead, Option.map_some]
            have hrange := ih _ (Range.enters_of_inner? hm hinner)
            rw [hinner, Range.step, hhead, Option.map_some, Option.map_some, Option.getD_some,
              Option.getD_some, ← hrange]
        · simp [Range.step, Range.inner?, htype]

/-! ### Where the steps stand -/

/-- The lines of the first declaration lie between the first and the last line of the second. -/
def Step.Inside (n p : Step) : Prop :=
  p.member.start < n.member.start ∧ n.member.stop < p.member.stop

theorem bounds_of_mem_steps (hn : n ∈ steps t r) :
    r.start ≤ n.member.start ∧ n.member.start ≤ n.member.stop ∧ n.member.stop < r.stop := by
  induction r using (wellFounded_enters t).induction with
  | _ r ih =>
    rcases mem_steps.mp hn with ⟨m, hm, rfl⟩ | ⟨m, hm, inner, hinner, hn⟩
    · exact bounds_of_mem_members hm
    · have hbounds := bounds_of_mem_members hm
      obtain ⟨hstart, hstop⟩ := Range.bounds_of_inner? hinner
      have hn' := ih inner (Range.enters_of_inner? hm hinner) hn
      omega

/-- The members of a range that have a line in common are the same. -/
theorem eq_of_mem_members {m' : Member} (hm : m ∈ r.members t) (hm' : m' ∈ r.members t) {line : Nat}
    (h : m.start ≤ line ∧ line ≤ m.stop) (h' : m'.start ≤ line ∧ line ≤ m'.stop) : m = m' := by
  have hsorted : (r.members t).Pairwise fun a b => a.stop < b.start ∨ b.stop < a.start :=
    (members_sorted _ _ _ _ _).imp Or.inl
  by_contra hne
  have hsymm : Std.Symm fun a b : Member => a.stop < b.start ∨ b.stop < a.start :=
    ⟨fun _ _ h => h.symm⟩
  have hapart := hsorted.forall hm hm' hne
  omega

/-- What lies on lines of a member comes from the member or from the range inside of it. -/
theorem mem_part_of_line (hm : m ∈ r.members t) (hp : p ∈ steps t r) (line : Nat)
    (hline : m.start ≤ line ∧ line ≤ m.stop)
    (hline' : p.member.start ≤ line ∧ line ≤ p.member.stop) :
    p = r.step t m ∨ ∃ inner, r.inner? t m = some inner ∧ p ∈ steps t inner := by
  rcases mem_steps.mp hp with ⟨m', hm', rfl⟩ | ⟨m', hm', inner, hinner, hp⟩
  · rw [eq_of_mem_members hm hm' hline hline']
    exact .inl rfl
  · obtain ⟨hstart, hstop⟩ := Range.bounds_of_inner? hinner
    have hbounds := bounds_of_mem_steps hp
    rw [eq_of_mem_members hm hm' hline (by omega)]
    exact .inr ⟨inner, hinner, hp⟩

/-- What a type owns is read in the name of the type. -/
theorem owner_of_inner? {inner : Range} (h : r.inner? t m = some inner) :
    inner.owner = (leadingType? ((r.step t m).results t)).getD r.owner := by
  unfold Range.inner? at h
  split at h
  · next htype =>
    obtain ⟨head, hhead, rfl⟩ := Option.map_eq_some_iff.mp h
    have hresults : (r.step t m).results t = headFacts t r.owner m head := by
      simp [Step.results, Range.step, htype, hhead]
    rw [hresults]
    simp [headFacts, declare, leadingType?, leading?, ElementKind.isType_ite]
  · cases h

/-- Things are declared in the name of the innermost type around them. -/
theorem ownedAmong_steps (t : Document) (r : Range) (hn : n ∈ steps t r) :
    OwnedAmong (Step.results t) (steps t r) Step.Inside r.owner n.owner n := by
  -- induction on the ranges that reading goes on to
  induction r using (wellFounded_enters t).induction with
  | _ r ih =>
    rcases mem_steps.mp hn with ⟨m, hm, rfl⟩ | ⟨m, hm, inner, hinner, hn⟩
    · have hbounds := bounds_of_mem_members hm
      refine .inl ⟨rfl, ?_⟩
      rintro p hp - ⟨hstart, hstop⟩
      change p.member.start < m.start at hstart
      change m.stop < p.member.stop at hstop
      rcases mem_part_of_line hm hp m.start ⟨le_rfl, hbounds.2.1⟩ (by omega) with
        rfl | ⟨inner, hinner, hp⟩
      · exact lt_irrefl _ hstart
      · obtain ⟨hstart', -⟩ := Range.bounds_of_inner? hinner
        have hp' := bounds_of_mem_steps hp
        omega
    · obtain ⟨hstart, hstop⟩ := Range.bounds_of_inner? hinner
      have hn' := bounds_of_mem_steps hn
      have hpart := ih inner (Range.enters_of_inner? hm hinner) hn
      rw [owner_of_inner? hinner] at hpart
      refine hpart.enclose (mem_steps.mpr (.inl ⟨m, hm, rfl⟩)) ?_ ?_ ?_ ?_ ?_
      · intro p hp
        exact mem_steps.mpr (.inr ⟨m, hm, inner, hinner, hp⟩)
      · change m.start < n.member.start ∧ n.member.stop < m.stop
        omega
      · rintro p hp ⟨hpstart, hpstop⟩
        rcases mem_part_of_line hm hp n.member.start (by omega) (by omega) with
          hp | ⟨inner', hinner', hp⟩
        · exact .inl hp
        · rw [hinner] at hinner'
          cases hinner'
          exact .inr hp
      · exact fun hself => lt_irrefl _ hself.1
      · rintro p hp ⟨hpstart, -⟩
        change p.member.start < m.start at hpstart
        have hp' := bounds_of_mem_steps hp
        omega

/-! ### What the steps state -/

theorem states_results (n : Step) : States t n.owner n.member (n.results t) := by
  unfold Step.results
  split_ifs with hfield htype
  · exact states_fieldFacts hfield
  · cases hhead : typeHead.find? (declarationText t.listing n.member.start) with
    | none => exact .plain AllFacts.nil
    | some head => exact states_headFacts htype hhead
  · exact states_memberFacts n.types n.member

section Survey

variable (settings : Settings) (fs : FileSystem) (source : Source)

def Document.ofSource (source : Source) : Document := ⟨source.path, .ofText "//" source.content⟩

/-- The lines of a source, all of them its own. -/
def Range.ofSource (source : Source) : Range :=
  ⟨source.path, 0, (Document.ofSource source).listing.code.length⟩

def run (source : Source) : List Step :=
  if source.cancelled then [] else steps (.ofSource source) (.ofSource source)

/-- The declarations of a source by their lines. -/
def layout : Layout :=
  .ofSteps (Step.results (.ofSource source)) (run source)
    (fun n plain => plainName? (.ofSource source) n.member = some plain) Step.Inside

theorem imprints_survey :
    (survey settings fs source).imprints =
      ((run source).flatMap (Step.results (.ofSource source))).flatMap Fact.imprints := by
  refine (imprints_surveyOfLines settings fs source _ _ _).trans ?_
  have hfacts : facts source.path source.content =
      (steps (.ofSource source) (.ofSource source)).flatMap (Step.results (.ofSource source)) :=
    rangeFacts_eq_flatMap_steps (.ofSource source) (.ofSource source)
  rw [hfacts, run]
  split <;> rfl

theorem names_survey : (layout source).Names source.path (survey settings fs source) := by
  have hstated (n : Step) (_ : n ∈ run source) :=
    (states_results (t := .ofSource source) n).imp fun _ hd => hd.1
  have himprints := (imprints_survey settings fs source).trans (flatMap_imprints hstated)
  refine Layout.names_of_entries map_fst_entriesOf.symm himprints
    (Layout.named_ofSteps hstated fun n hn => ?_)
  unfold run at hn ⊢
  split at hn
  · cases hn
  · next hcancelled =>
    rw [if_neg hcancelled]
    exact ownedAmong_steps _ (.ofSource source) hn

end Survey

end Dart

end CodeSurvey
