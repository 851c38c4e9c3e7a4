import CodeSurvey.Proofs.Report.Growth

/-!
# Calls and throws in the order of the tree

The surveys of three languages explore a syntax tree, going into types, members and bodies from
within. Whatever the tree is, they come to its nodes in pre-order and to none of them twice, so that
the calls and throws of a report stand in the order of the nodes that make them, one for each.
-/

namespace CodeSurvey

def Source.unit (source : Source) : SourceUnit := ⟨source.path, source.content⟩

/-! ## Relations stated at nodes -/

section Stated

variable {Mode : Type} (place : Place) (results : Mode × Site → List Fact)

/-- A relation is the only one of a kind that is stated at a node, and it is stated on its line. -/
def StatedAt (kind : RelationKind) (n : Mode × Site) (rel : Relation) : Prop :=
  ∃ member target properties,
    (results n).filter (·.kind? = some kind) = [.relate member target kind n.2.line properties] ∧
      rel = place.relation member target kind n.2.line properties

/-- The nodes at which something of a kind is stated. -/
def origins (kind : RelationKind) (nodes : List (Mode × Site)) : List (Mode × Site) :=
  nodes.filter fun n => (results n).any (·.kind? = some kind)

variable {results} {nodeKinds : RelationKind → List String} {kind : RelationKind}
  {n : Mode × Site} {nodes : List (Mode × Site)}

theorem origins_cons_of_eq_nil (h : (results n).filter (·.kind? = some kind) = []) :
    origins results kind (n :: nodes) = origins results kind nodes := by
  apply List.filter_cons_of_neg
  simpa [List.filter_eq_nil_iff] using h

theorem origins_cons_of_ne_nil (h : (results n).filter (·.kind? = some kind) ≠ []) :
    origins results kind (n :: nodes) = n :: origins results kind nodes := by
  apply List.filter_cons_of_pos
  simpa [List.filter_eq_nil_iff] using h

/-- Nodes at which at most one relation is stated each have the relations in their order. -/
theorem forall₂_statedAt (hkind : kind = .calls ∨ kind = .throws)
    (hacts : ∀ n ∈ nodes, ActsAt nodeKinds n.2 (results n)) :
    List.Forall₂ (StatedAt place results kind) (origins results kind nodes)
      ((statements place (nodes.flatMap results)).filter (·.kind = kind)) := by
  rw [filter_statements]
  induction nodes with
  | nil => exact .nil
  | cons n rest ih =>
    obtain ⟨hn, hrest⟩ := List.forall_mem_cons.mp hacts
    rw [List.flatMap_cons, List.filter_append, statements_append]
    rcases hn.filter_eq hkind with hnone | ⟨-, member, target, properties, hone⟩
    · rw [origins_cons_of_eq_nil hnone, hnone]
      exact ih hrest
    · rw [origins_cons_of_ne_nil (hone ▸ List.cons_ne_nil _ _), hone]
      exact .cons ⟨member, target, properties, hone, rfl⟩ (ih hrest)

/-- Something is stated only at nodes of a kind that stands for it. -/
theorem kind_mem_of_mem_origins (hkind : kind = .calls ∨ kind = .throws)
    (hacts : ∀ n ∈ nodes, ActsAt nodeKinds n.2 (results n)) (hn : n ∈ origins results kind nodes) :
    n.2.kind ∈ nodeKinds kind := by
  obtain ⟨hmem, hany⟩ := List.mem_filter.mp hn
  rcases (hacts n hmem).filter_eq hkind with hnone | ⟨hnode, -⟩
  · obtain ⟨f, hf, hfkind⟩ := List.any_eq_true.mp hany
    exact absurd (List.mem_filter.mpr ⟨hf, hfkind⟩) (hnone ▸ List.not_mem_nil)
  · exact hnode

theorem origins_sublist : (origins results kind nodes).Sublist nodes := List.filter_sublist

end Stated

/-! ## The walkers -/

/-- The languages whose syntax trees are explored for what the bodies of their members do. -/
inductive Walker where
  | csharp
  | typescript
  | python
  deriving Repr, DecidableEq

namespace Walker

/-- What a visit has to know. -/
def Scope : Walker → Type
  | csharp => CSharp.Scope
  | typescript => TypeScript.Scope
  | python => Python.Scope

def visit (u : SourceUnit) : (w : Walker) → w.Scope → (s : Site) → Visit w.Scope Fact s
  | csharp => CSharp.visit u
  | typescript => TypeScript.visit u
  | python => Python.visit u

/-- What the visit of the root has to know. -/
def start (path : String) : (w : Walker) → w.Scope
  | csharp => ({ owner := path } : CSharp.Scope)
  | typescript => TypeScript.Scope.inside path none
  | python => Python.Scope.inside path none

def actionNodes : Walker → RelationKind → List String
  | csharp => CSharp.actionNodes
  | typescript => TypeScript.actionNodes
  | python => Python.actionNodes

def survey (settings : Settings) (fs : FileSystem) (source : Source) : Walker → Report
  | csharp => CSharp.survey settings fs source
  | typescript => TypeScript.survey settings fs source
  | python => Python.survey settings fs source

/-- Whether a survey explores a tree: unless it was called off or the language refuses a tree with a
syntax error. -/
def explores (source : Source) (tree : Tree) : Walker → Bool
  | csharp => !source.cancelled
  | typescript => !source.cancelled
  | python => !source.cancelled && tree.firstErrorLine?.isNone

/-- The nodes that a survey of a source visits, with what the visits have to know, in order. -/
def visited (w : Walker) (source : Source) (tree : Tree) : List (w.Scope × Site) :=
  if w.explores source tree then trail (w.visit source.unit) (w.start source.path) (.root tree)
  else []

/-- What the visit of a node of a source states. -/
def results (w : Walker) (source : Source) (n : w.Scope × Site) : List Fact :=
  (w.visit source.unit n.1 n.2).results

def types : Walker → TypeSystem
  | csharp => .csharp
  | typescript => .typescript
  | python => .python

def plainName? (u : SourceUnit) (s : Site) : Walker → Option String
  | csharp => CSharp.plainName? u s
  | typescript => TypeScript.plainName? u s
  | python => Python.plainName? u s

def ownerOf : (w : Walker) → w.Scope → String
  | csharp => CSharp.Scope.owner
  | typescript => TypeScript.Scope.owner
  | python => Python.Scope.owner

def Makes (u : SourceUnit) (s : Site) (name : String) : Walker → Prop
  | csharp => False
  | typescript => False
  | python => Python.Constructs u s name

def manner (u : SourceUnit) (w : Walker) : Manner w.Scope where
  types := w.types
  path := u.path
  ownerOf := w.ownerOf
  actionNodes := w.actionNodes
  plainName? s := w.plainName? u s
  makes s name := w.Makes u s name

theorem names_visit (w : Walker) (u : SourceUnit) (scope : w.Scope) (s : Site) :
    (w.visit u scope s).Names (w.manner u) (w.ownerOf scope) := by
  cases w with
  | csharp => exact CSharp.names_visit scope s
  | typescript => exact TypeScript.names_visit scope s
  | python => exact Python.names_visit scope s

section Survey

variable (w : Walker) (settings : Settings) (fs : FileSystem) (source : Source) (tree : Tree)

theorem visited_sublist_preorder :
    ((w.visited source tree).map (·.2)).Sublist (Site.root tree).preorder := by
  unfold visited
  split
  · exact trail_sublist_preorder (fun scope s => (w.names_visit source.unit scope s).orderly) _ _
  · exact List.nil_sublist _

theorem relations_surveyOfTree (language : String) (bank : Bank) (facts : Tree → List Fact) :
    (surveyOfTree settings fs { source with tree := some tree } language bank facts).relations =
      if !source.cancelled then statements (source.place settings fs) (facts tree) else [] := by
  unfold surveyOfTree
  dsimp only
  cases source.cancelled with
  | true => rfl
  | false =>
    refine (Report.relations_detect _ _ _ _).trans ((Report.relations_recordAll _ _ _).trans ?_)
    cases tree.firstErrorLine? <;> rfl

theorem relations_python :
    (Python.survey settings fs { source with tree := some tree }).relations =
      if !source.cancelled && tree.firstErrorLine?.isNone then
        statements (source.place settings fs) (Python.facts source.path source.content tree)
      else [] := by
  unfold Python.survey Python.checkedTree
  dsimp only
  cases source.cancelled with
  | true => rfl
  | false =>
    cases tree.firstErrorLine? with
    | none => exact (Report.relations_detect _ _ _ _).trans (Report.relations_recordAll _ _ _)
    | some line => rfl

/-- The relations of a report are those that the visits of its survey state. -/
theorem relations_survey :
    (w.survey settings fs { source with tree := some tree }).relations =
      statements (source.place settings fs) ((w.visited source tree).flatMap (w.results source)) := by
  have hexplore : (w.survey settings fs { source with tree := some tree }).relations =
      if w.explores source tree then statements (source.place settings fs)
        (explore (w.visit source.unit) (w.start source.path) (.root tree)) else [] := by
    cases w with
    | csharp | typescript => exact relations_surveyOfTree settings fs source tree _ _ _
    | python => exact relations_python settings fs source tree
  rw [hexplore, explore_eq_flatMap_trail, visited]
  split <;> rfl

/-- What is stated at nodes of a survey, in the order of the tree and with none of them twice. -/
structure Traces (kind : RelationKind) : Prop where
  preordered : ((origins (w.results source) kind (w.visited source tree)).map (·.2)).Sublist
    ((Site.root tree).preorder.filter fun s => s.kind ∈ w.actionNodes kind)
  nodup : ((origins (w.results source) kind (w.visited source tree)).map (·.2)).Nodup
  stated : List.Forall₂ (StatedAt (source.place settings fs) (w.results source) kind)
    (origins (w.results source) kind (w.visited source tree))
    ((w.survey settings fs { source with tree := some tree }).relationsOf kind)

theorem traces {kind : RelationKind} (hkind : kind = .calls ∨ kind = .throws) :
    w.Traces settings fs source tree kind := by
  have hacts : ∀ n ∈ w.visited source tree, ActsAt w.actionNodes n.2 (w.results source n) :=
    fun n _ => (w.names_visit source.unit n.1 n.2).acts
  have hsublist : ((origins (w.results source) kind (w.visited source tree)).map (·.2)).Sublist
      (Site.root tree).preorder :=
    (origins_sublist.map _).trans (w.visited_sublist_preorder source tree)
  constructor
  · have hkinds : ((origins (w.results source) kind (w.visited source tree)).map (·.2)).filter
        (fun s => s.kind ∈ w.actionNodes kind) =
          (origins (w.results source) kind (w.visited source tree)).map (·.2) := by
      rw [List.filter_eq_self, List.forall_mem_map]
      intro n hn
      exact decide_eq_true (kind_mem_of_mem_origins hkind hacts hn)
    rw [← hkinds]
    exact hsublist.filter _
  · exact hsublist.nodup (Site.nodup_preorder _)
  · rw [Report.relationsOf, w.relations_survey settings fs source tree]
    exact forall₂_statedAt _ hkind hacts

/-- Whatever the tree is, a survey visits its nodes in pre-order and none of them twice, however types,
members and bodies are nested. The relations of the report are those that the visits state, one after
the other. So the calls are in the order of the nodes of the kinds that call, each stated by a node of
its own, and the throws in the order of the nodes that throw. -/
theorem visits_in_preorder :
    ((w.visited source tree).map (·.2)).Sublist (Site.root tree).preorder ∧
      ((w.visited source tree).map (·.2)).Nodup ∧
      (w.survey settings fs { source with tree := some tree }).relations =
        statements (source.place settings fs) ((w.visited source tree).flatMap (w.results source)) ∧
      w.Traces settings fs source tree .calls ∧ w.Traces settings fs source tree .throws := by
  have hsublist := w.visited_sublist_preorder source tree
  refine ⟨hsublist, hsublist.nodup (Site.nodup_preorder _), ?_, ?_, ?_⟩
  · exact w.relations_survey settings fs source tree
  · exact w.traces settings fs source tree (.inl rfl)
  · exact w.traces settings fs source tree (.inr rfl)

end Survey

end Walker

end CodeSurvey
