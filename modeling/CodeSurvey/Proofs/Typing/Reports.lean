import CodeSurvey.Proofs.Typing.Facts

/-!
# Reports on typed sources

The surveys of the five languages with types of their own take the same few steps, and the facts that
they record keep to the types of the language. So every relation of a report that names a type leads
to a name that the language admits.
-/

namespace CodeSurvey

def TypeSystem.frontend (settings : Settings) : TypeSystem → Frontend
  | csharp => CSharp.frontend settings
  | visualBasic => VisualBasic.frontend settings
  | typescript => TypeScript.frontend settings
  | python => Python.frontend settings
  | dart => Dart.frontend settings

namespace Report

/-- Reports that the steps of a survey make of a source in a language. -/
inductive Read (types : TypeSystem) (place : Place) : Report → Prop
  | opening (content language : String) : Read types place (opening place content language)
  | fail {r : Report} (h : Read types place r) (failure : Failure) : Read types place (r.fail failure)
  | flagSyntaxError {r : Report} (h : Read types place r) (line : Nat) :
      Read types place (r.flagSyntaxError line)
  | recordAll {r : Report} (h : Read types place r) {facts : List Fact}
      (howned : Owned [place.path] facts) (htyped : WellTyped types [] facts) :
      Read types place (r.recordAll place facts)
  | detect {r : Report} (h : Read types place r) (settings : DetectorSettings) (bank : Bank)
      (scene : Scene) : Read types place (r.detect settings bank scene)

end Report

open Report (Read)

section Surveys

variable (settings : Settings) (fs : FileSystem) (source : Source)

theorem read_surveyOfTree {types : TypeSystem} (language : String) (bank : Bank)
    {facts : Tree → List Fact} (howned : ∀ tree, Owned [source.path] (facts tree))
    (htyped : ∀ tree, WellTyped types [] (facts tree)) :
    Read types (source.place settings fs) (surveyOfTree settings fs source language bank facts) := by
  unfold surveyOfTree
  dsimp only
  split
  · exact (Read.opening _ _).fail _
  · cases source.tree with
    | none => exact (Read.opening _ _).fail _
    | some tree =>
      apply Read.detect
      refine Read.recordAll ?_ (howned tree) (htyped tree)
      cases tree.firstErrorLine? with
      | none => exact Read.opening _ _
      | some line => exact (Read.opening _ _).flagSyntaxError line

theorem read_surveyOfLines {types : TypeSystem} (language : String) (bank : Bank)
    {facts : List Fact} (howned : Owned [source.path] facts) (htyped : WellTyped types [] facts) :
    Read types (source.place settings fs) (surveyOfLines settings fs source language bank facts) := by
  unfold surveyOfLines
  dsimp only
  split
  · exact (Read.opening _ _).fail _
  · exact ((Read.opening _ _).recordAll howned htyped).detect _ _ _

theorem Python.read_survey :
    Read .python (source.place settings fs) (survey settings fs source) := by
  unfold survey
  dsimp only
  split
  · exact (Read.opening _ _).fail _
  · cases checkedTree source.path source.tree with
    | error failure =>
      apply Read.fail
      split
      · exact (Read.opening _ _).flagSyntaxError _
      · exact Read.opening _ _
    | ok tree =>
      apply Read.detect
      exact (Read.opening _ _).recordAll (owned_facts _ _ tree) (Walker.python.wellTyped_explore _ _ _)

/-- Every front end of a language gives a report that was read from the source. -/
theorem read_frontend (types : TypeSystem) :
    ∃ r, (types.frontend settings).survey fs source = .ok r ∧
      Read types (source.place settings fs) r := by
  cases types with
  | csharp =>
    exact ⟨_, rfl, read_surveyOfTree settings fs source _ _
      (CSharp.owned_facts source.path source.content)
      (fun _ => Walker.csharp.wellTyped_explore _ _ _)⟩
  | visualBasic =>
    exact ⟨_, rfl, read_surveyOfLines settings fs source _ _
      (VisualBasic.owned_facts source.path source.content)
      (VisualBasic.wellTyped_facts source.path source.content)⟩
  | typescript =>
    exact ⟨_, rfl, read_surveyOfTree settings fs source _ _
      (TypeScript.owned_facts source.path source.content)
      (fun _ => Walker.typescript.wellTyped_explore _ _ _)⟩
  | python => exact ⟨_, rfl, Python.read_survey settings fs source⟩
  | dart =>
    exact ⟨_, rfl, read_surveyOfLines settings fs source _ _
      (Dart.owned_facts source.path source.content)
      (Dart.wellTyped_facts source.path source.content)⟩

end Surveys

/-! ## Targets of relations -/

namespace Report

variable {types : TypeSystem} {place : Place} {r : Report}

/-- Relations that name types lead to names that the language admits. -/
def Admissible (types : TypeSystem) (r : Report) : Prop :=
  ∀ rel ∈ r.relations, rel.kind.NamesType → types.Admits rel.target

theorem Admissible.relate {source target : String} {kind : RelationKind} {line : Nat}
    {properties : List (String × Json)} (h : r.Admissible types)
    (htarget : kind.NamesType → types.Admits target) :
    (r.relate place source target kind line properties).Admissible types := by
  intro rel hrel
  rw [relations_relate] at hrel
  rcases List.mem_append.mp hrel with hrel | hrel
  · exact h rel hrel
  · rw [List.mem_singleton.mp hrel, kind_relation, target_relation]
    exact htarget

theorem Admissible.record {f : Fact} {owners : List String} (h : r.Admissible types)
    (hf : f.Typed types owners) : (r.record place f).Admissible types := by
  cases f with
  | declare owner d => exact Admissible.relate (r := r.addElement _) h (by simp)
  | relate source target kind line properties => exact h.relate hf.2
  | inject owner target line properties =>
    have hrelate : (r.relate place owner target .injects line properties).Admissible types :=
      h.relate fun _ => hf.2
    exact hrelate
  | close position content lastLine => exact h

theorem Admissible.recordAll {facts : List Fact} {owners : List String} (h : r.Admissible types)
    (hfacts : WellTyped types owners facts) : (r.recordAll place facts).Admissible types := by
  induction hfacts generalizing r with
  | nil => exact h
  | cons hf hrest ih => exact ih (h.record hf)

theorem Read.admissible (h : Read types place r) : r.Admissible types := by
  induction h with
  | opening content language =>
    intro rel hrel
    exact absurd hrel List.not_mem_nil
  | fail _ _ ih | flagSyntaxError _ _ ih => exact ih
  | recordAll h howned htyped ih => exact ih.recordAll htyped
  | @detect r h settings bank scene ih =>
    obtain ⟨errors, hdetect⟩ := r.detect_eq settings bank scene
    rw [hdetect]
    exact ih

end Report

/-- Whatever is surveyed in a language with types of its own, relations that accept, return, have,
use as an argument or inject a type never lead to a type that is built into the language, to an
empty name or to a name that begins or ends with a dot. -/
theorem type_targets_admitted (settings : Settings) (fs : FileSystem) (source : Source)
    (types : TypeSystem) :
    ∃ r, (types.frontend settings).survey fs source = .ok r ∧
      ∀ rel ∈ r.relations,
        rel.kind ∈ [.acceptsType, .returnsType, .hasType, .usesGeneric, .injects] →
        types.isBuiltin rel.target = false ∧ rel.target ≠ "" ∧
          rel.target.toList.head? ≠ some '.' ∧ rel.target.toList.getLast? ≠ some '.' := by
  obtain ⟨r, hr, hread⟩ := read_frontend settings fs source types
  refine ⟨r, hr, ?_⟩
  intro rel hrel hkind
  have hadmits := hread.admissible rel hrel hkind
  exact ⟨hadmits.not_builtin, hadmits.ne_empty, hadmits.head_ne_dot, hadmits.last_ne_dot⟩

/-- A class whose constructor takes one value of a type of its own and one of a built-in type. -/
def constructedSource : Source where
  path := "a.vb"
  content := "Class A\nSub New(s As Store, n As Long)"

/-- The constructor accepts and injects the one type, and the built-in one is not related. -/
theorem targets_constructedSource :
    ∃ r, (TypeSystem.visualBasic.frontend {}).survey {} constructedSource = .ok r ∧
      (r.relations.filter fun rel => rel.kind.NamesType).map (fun rel => (rel.kind, rel.target)) =
        [(.acceptsType, "Store"), (.injects, "Store")] ∧
      TypeSystem.visualBasic.isBuiltin "Store" = false := by
  obtain ⟨r, hr, htargets⟩ := type_targets_admitted {} {} constructedSource .visualBasic
  have hsurvey : VisualBasic.survey {} {} constructedSource = r := Except.ok.inj hr
  have hrelations :
      (r.relations.filter fun rel => rel.kind.NamesType).map (fun rel => (rel.kind, rel.target)) =
        [(.acceptsType, "Store"), (.injects, "Store")] := by
    rw [← hsurvey]
    decide +kernel
  refine ⟨r, hr, hrelations, ?_⟩
  have hmem : (RelationKind.injects, "Store") ∈
      (r.relations.filter fun rel => rel.kind.NamesType).map (fun rel => (rel.kind, rel.target)) := by
    rw [hrelations]
    decide
  obtain ⟨rel, hrel, heq⟩ := List.mem_map.mp hmem
  obtain ⟨hrel, hkind⟩ := List.mem_filter.mp hrel
  have htarget : rel.target = "Store" := congrArg Prod.snd heq
  rw [← htarget]
  exact (htargets rel hrel (of_decide_eq_true hkind)).1

end CodeSurvey
