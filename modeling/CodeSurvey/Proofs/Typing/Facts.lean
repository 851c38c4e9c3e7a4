import CodeSurvey.Proofs.Naming.Lines
import CodeSurvey.Proofs.Naming.Trees

/-!
# Facts about types

Relations that name types lead only to names that the language admits, and an injection goes to the
owner of a constructor that was declared before. A declaration starts without dependencies: these
come to light by injections alone. Surveys in steps keep to this, since what a step states is regular.
-/

namespace CodeSurvey

/-- Kinds of relations whose targets are types. -/
@[simp] def RelationKind.NamesType (kind : RelationKind) : Prop :=
  kind ∈ [.acceptsType, .returnsType, .hasType, .usesGeneric, .injects]

instance (kind : RelationKind) : Decidable kind.NamesType :=
  inferInstanceAs (Decidable (kind ∈ [_, _, _, _, _]))

/-! ## Single facts -/

namespace Fact

/-- A fact that keeps to the types of a language, where these owners may be injected into. -/
def Typed (types : TypeSystem) (owners : List String) : Fact → Prop
  | declare _ d => d.dependencies = []
  | relate _ target kind _ _ => kind ≠ .injects ∧ (kind.NamesType → types.Admits target)
  | inject owner target _ _ => owner ∈ owners ∧ types.Admits target
  | close _ _ _ => True

/-- The owner of the declaration that a fact states. -/
def owners : Fact → List String
  | declare owner _ => [owner]
  | _ => []

variable {types : TypeSystem} {owners : List String}

theorem Typed.mono {f : Fact} {owners' : List String} (h : f.Typed types owners)
    (hsub : owners ⊆ owners') : f.Typed types owners' := by
  cases f with
  | declare | relate => exact h
  | inject owner target line properties => exact ⟨hsub h.1, h.2⟩
  | close position content lastLine => exact h

theorem Regular.typed {makes : String → Prop} {free : List RelationKind} {f : Fact}
    (h : f.Regular types makes owners free) : f.Typed types owners := by
  cases f with
  | declare owner d => exact h.elim
  | relate source target kind line properties =>
    refine ⟨?_, fun hkind => ?_⟩
    · rintro rfl
      exact h
    · simp only [RelationKind.NamesType, List.mem_cons, List.not_mem_nil, or_false] at hkind
      rcases hkind with rfl | rfl | rfl | rfl | rfl
      · exact h
      · exact h
      · exact h
      · exact h
      · exact h.elim
  | inject owner target line properties => exact h
  | close position content lastLine => exact h.elim

end Fact

/-! ## Facts in order -/

/-- Facts that keep to the types of a language, where an injection goes to one of these owners or to
the owner of a declaration before it. -/
inductive WellTyped (types : TypeSystem) : List String → List Fact → Prop
  | nil {owners : List String} : WellTyped types owners []
  | cons {owners : List String} {f : Fact} {rest : List Fact} (hf : f.Typed types owners)
      (hrest : WellTyped types (owners ++ f.owners) rest) : WellTyped types owners (f :: rest)

namespace WellTyped

variable {types : TypeSystem} {owners owners' : List String} {facts more : List Fact}

theorem mono (h : WellTyped types owners facts) (hsub : owners ⊆ owners') :
    WellTyped types owners' facts := by
  induction h generalizing owners' with
  | nil => exact nil
  | cons hf hrest ih =>
    exact cons (hf.mono hsub) (ih (List.append_subset.mpr
      ⟨List.subset_append_of_subset_left _ hsub, List.subset_append_right _ _⟩))

theorem append (h : WellTyped types owners facts) (hmore : WellTyped types owners more) :
    WellTyped types owners (facts ++ more) := by
  induction h with
  | nil => exact hmore
  | cons hf hrest ih => exact cons hf (ih (hmore.mono (List.subset_append_left _ _)))

theorem of_typed (h : AllFacts (Fact.Typed types owners) facts) : WellTyped types owners facts := by
  induction facts generalizing owners with
  | nil => exact nil
  | cons f rest ih =>
    obtain ⟨hf, hrest⟩ := AllFacts.cons_iff.mp h
    exact cons hf (ih (hrest.imp fun g hg => hg.mono (List.subset_append_left _ _)))

theorem of_regular {makes : String → Prop} {free : List RelationKind}
    (h : AllRegular types makes owners free facts) : WellTyped types owners facts :=
  of_typed (h.imp fun _ hf => hf.typed)

/-- What a step of a survey states keeps to the types of the language. -/
theorem of_stated {makes : String → Prop} {owner : String} {declares : Declaration → Prop}
    (h : Stated types makes owner declares facts) : WellTyped types owners facts := by
  cases h with
  | plain h => exact (of_regular h).mono (List.nil_subset _)
  | ending h => exact cons trivial nil
  | declaration hd hkind hdependencies hrest =>
    exact cons hdependencies ((of_regular hrest).mono (List.subset_append_right _ _))

theorem flatMap {α : Type} {items : List α} {g : α → List Fact}
    (h : ∀ x ∈ items, WellTyped types owners (g x)) :
    WellTyped types owners (items.flatMap g) := by
  induction items with
  | nil => exact nil
  | cons x rest ih =>
    rw [List.flatMap_cons]
    apply append
    · exact h x List.mem_cons_self
    · exact ih fun y hy => h y (List.mem_cons_of_mem x hy)

end WellTyped

/-! ## The languages -/

theorem Walker.wellTyped_explore (w : Walker) (u : SourceUnit) (scope : w.Scope) (s : Site) :
    WellTyped w.types [] (explore (w.visit u) scope s) := by
  rw [explore_eq_flatMap_trail]
  exact .flatMap fun n _ => .of_stated (w.names_visit u n.1 n.2).stated

theorem VisualBasic.wellTyped_facts (path text : String) :
    WellTyped .visualBasic [] (facts path text) := by
  unfold facts
  dsimp only
  rw [facts_readAll]
  refine .append (.flatMap fun m _ => .of_stated (Effect.statementStep _ _ _ _).stated) (.of_typed ?_)
  simp [closeFacts_eq, Block.closeFact, Fact.Typed]

theorem Dart.wellTyped_facts (path text : String) : WellTyped .dart [] (facts path text) := by
  have hsteps : facts path text = _ :=
    rangeFacts_eq_flatMap_steps ⟨path, .ofText "//" text⟩ ⟨path, 0, _⟩
  rw [hsteps]
  exact .flatMap fun n _ => .of_stated (states_results n)

end CodeSurvey
