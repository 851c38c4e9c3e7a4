import CodeSurvey.Proofs.Naming.Surveys

/-!
# Uses of built-in types

A use leads to a type that is constructed or extended. Names that are built into the language are left
out where a reference to a type is read, and most uses are read from such references. Two are not: a
call of a plain name with a capital letter in Python, and the type that an extension in Dart is on.
These are all the uses of built-in types in the reports of five languages.
-/

namespace CodeSurvey

/-! ## Uses among facts -/

/-- Among facts a use of a name is stated. -/
def Uses (facts : List Fact) (name : String) : Prop :=
  ∃ source line properties, .relate source name .uses line properties ∈ facts

section Facts

variable {facts more : List Fact} {name : String}

theorem not_uses_nil : ¬ Uses [] name := by simp [Uses]

theorem uses_flatMap_iff {α : Type} {items : List α} {g : α → List Fact} :
    Uses (items.flatMap g) name ↔ ∃ x ∈ items, Uses (g x) name := by
  constructor
  · rintro ⟨source, line, properties, hmem⟩
    obtain ⟨x, hx, hmem⟩ := List.mem_flatMap.mp hmem
    exact ⟨x, hx, source, line, properties, hmem⟩
  · rintro ⟨x, hx, source, line, properties, hmem⟩
    exact ⟨source, line, properties, List.mem_flatMap.mpr ⟨x, hx, hmem⟩⟩

/-- The uses of a report are those among the facts that it states. -/
theorem exists_use_iff (place : Place) :
    (∃ rel ∈ (statements place facts).filter (·.kind = .uses), rel.target = name) ↔
      Uses facts name := by
  rw [filter_statements]
  constructor
  · rintro ⟨rel, hrel, rfl⟩
    obtain ⟨f, hf, hstated⟩ := List.mem_filterMap.mp hrel
    obtain ⟨hf, hkind⟩ := List.mem_filter.mp hf
    cases f with
    | relate source target kind line properties =>
      obtain rfl : kind = .uses := Option.some.inj (of_decide_eq_true hkind)
      cases hstated
      exact ⟨source, line, properties, by rwa [target_relation]⟩
    | _ => cases of_decide_eq_true hkind
  · rintro ⟨source, line, properties, hmem⟩
    refine ⟨place.relation source name .uses line properties, ?_, target_relation _ _ _ _ _⟩
    exact List.mem_filterMap.mpr ⟨_, List.mem_filter.mpr ⟨hmem, decide_eq_true rfl⟩, rfl⟩

/-- A step of a survey uses a built-in type only if it makes one without a look. -/
theorem Stated.makes_of_uses {types : TypeSystem} {makes : String → Prop} {owner : String}
    {declares : Declaration → Prop} (h : Stated types makes owner declares facts)
    (huses : Uses facts name) (hbuiltin : types.isBuiltin name = true) : makes name := by
  obtain ⟨source, line, properties, hmem⟩ := huses
  have hregular (owners : List String) (rest : List Fact)
      (hrest : AllRegular types makes owners loose rest)
      (hmem : .relate source name .uses line properties ∈ rest) : makes name := by
    rcases hrest _ hmem with hadmits | hmakes
    · exact absurd hadmits.not_builtin (by simp [hbuiltin])
    · exact hmakes
  cases h with
  | plain h => exact hregular _ _ h hmem
  | ending h => simp at hmem
  | declaration hd hkind hdependencies hrest =>
    exact hregular _ _ hrest ((List.mem_cons.mp hmem).resolve_left (by simp))

end Facts

/-! ## Syntax trees -/

/-- The relations of a survey by syntax tree are those that its visits state. -/
theorem Walker.relations_eq (w : Walker) (settings : Settings) (fs : FileSystem) (source : Source) :
    (w.survey settings fs source).relations =
      statements (source.place settings fs) ((w.visits source).flatMap (w.results source)) := by
  obtain ⟨path, content, context, cancelled, tree?⟩ := source
  cases tree? with
  | none => cases w <;> cases cancelled <;> rfl
  | some tree =>
    rw [visits, Option.toList_some, List.flatMap_singleton]
    exact w.relations_survey settings fs ⟨path, content, context, cancelled, some tree⟩ tree

namespace Python

/-- The member in whose body a visit takes place. -/
def Scope.member? : Scope → Option String
  | inside _ member => member
  | itemOf _ => none
  | statementOf _ member => some member

variable {u : SourceUnit} {scope : Scope} {s : Site}

theorem results_call (h : s.kind = "call") :
    (visit u scope s).results = (scope.member?.map (callFacts u · s)).getD [] := by
  cases scope with
  | inside owner member =>
    cases member <;> simp [visit, visitInside, Scope.member?, bodyFacts, Visit.onward, h]
  | itemOf type => simp [visit, visitItem, visitInside, Scope.member?, Visit.onward, h]
  | statementOf owner member =>
    simp [visit, visitStatement, visitInside, Scope.member?, bodyFacts, Visit.onward, h]

/-- A visit uses a built-in type if and only if it is in the body of a member and constructs it. -/
theorem uses_visit_iff {name : String} (hbuiltin : TypeSystem.python.isBuiltin name = true) :
    Uses (visit u scope s).results name ↔ scope.member?.isSome ∧ Constructs u s name := by
  constructor
  · intro huses
    have hconstructs : Constructs u s name :=
      (names_visit scope s).stated.makes_of_uses huses hbuiltin
    rw [results_call hconstructs.1] at huses
    refine ⟨?_, hconstructs⟩
    cases hmember : scope.member? with
    | none =>
      rw [hmember] at huses
      exact absurd huses not_uses_nil
    | some member => rfl
  · rintro ⟨hmember, hcall, hupper, hcalled⟩
    obtain ⟨member, hmember⟩ := Option.isSome_iff_exists.mp hmember
    rw [results_call hcall, hmember]
    exact ⟨member, s.line, [], by simp [callFacts, hcalled, hupper]⟩

end Python

/-! ## Lines -/

theorem relations_surveyOfLines (settings : Settings) (fs : FileSystem) (source : Source)
    (language : String) (bank : Bank) (facts : List Fact) :
    (surveyOfLines settings fs source language bank facts).relations =
      if source.cancelled then [] else statements (source.place settings fs) facts := by
  unfold surveyOfLines
  dsimp only
  cases source.cancelled with
  | true => rfl
  | false => exact (Report.relations_detect _ _ _ _).trans (Report.relations_recordAll _ _ _)

theorem VisualBasic.not_uses_facts {name : String} (path text : String)
    (hbuiltin : TypeSystem.visualBasic.isBuiltin name = true) : ¬ Uses (facts path text) name := by
  rintro ⟨source, line, properties, hmem⟩
  unfold facts at hmem
  dsimp only at hmem
  rw [facts_readAll] at hmem
  rcases List.mem_append.mp hmem with hmem | hmem
  · obtain ⟨m, -, hmem⟩ := List.mem_flatMap.mp hmem
    exact (Effect.statementStep _ m.state m.line m.statement).stated.makes_of_uses
      ⟨source, line, properties, hmem⟩ hbuiltin
  · simp [closeFacts_eq, Block.closeFact] at hmem

namespace Dart

variable {t : Document}

/-- A step uses a built-in type if and only if it declares an extension on it. -/
theorem uses_results_iff {n : Step} {name : String}
    (hbuiltin : TypeSystem.dart.isBuiltin name = true) :
    Uses (n.results t) name ↔ ExtensionOn t n.member name := by
  constructor
  · exact fun huses => (states_results n).makes_of_uses huses hbuiltin
  · rintro ⟨hshape, head, hhead, hextension, list, hclause, base, hbase, rfl⟩
    have hne : ¬ (TypeRef.baseName base).isEmpty := by
      intro hempty
      rw [String.isEmpty_iff.mp hempty] at hbuiltin
      exact absurd hbuiltin (by decide)
    have hresults : n.results t = headFacts t n.owner n.member head := by
      simp [Step.results, hshape, hhead]
    rw [hresults]
    refine ⟨typeName t n.owner head, n.member.start + 1, [], List.mem_append_right _ ?_⟩
    refine List.mem_flatMap.mpr ⟨("on", list), hclause, List.mem_flatMap.mpr ⟨base, hbase, ?_⟩⟩
    simp [hne, clauseKind, hextension]

end Dart

/-! ## All languages -/

namespace Language

def types : Language → TypeSystem
  | explored walker => walker.types
  | visualBasic => .visualBasic
  | dart => .dart

/-- A source uses a name without a look at whether it is built in: by a call of the name in the body of
a Python function, or by a Dart extension on it. -/
def Overlooks (source : Source) (name : String) : Language → Prop
  | explored .csharp => False
  | explored .typescript => False
  | explored .python => ∃ n ∈ Walker.python.visits source,
      (Python.Scope.member? n.1).isSome ∧ Python.Constructs source.unit n.2 name
  | visualBasic => False
  | dart => ∃ n ∈ Dart.run source, Dart.ExtensionOn (.ofSource source) n.member name

/-- In a report on a C#, TypeScript or Visual Basic source no use leads to a built-in type. In one on a
Python source a use leads to a built-in type if and only if the body of a function calls its plain name
and the name begins with a capital letter, and in one on a Dart source if and only if an extension is on
the type. -/
theorem uses_builtin_iff (language : Language) (settings : Settings) (fs : FileSystem)
    (source : Source) {name : String} (hbuiltin : language.types.isBuiltin name = true) :
    (∃ rel ∈ (language.survey settings fs source).relationsOf .uses, rel.target = name) ↔
      language.Overlooks source name := by
  unfold Report.relationsOf
  cases language with
  | explored walker =>
    change (∃ rel ∈ (walker.survey settings fs source).relations.filter _, _) ↔ _
    rw [walker.relations_eq settings fs source, exists_use_iff, uses_flatMap_iff]
    have hmakes (n : walker.Scope × Site) (huses : Uses (walker.results source n) name) :
        walker.Makes source.unit n.2 name :=
      (walker.stated_visits source n).makes_of_uses huses hbuiltin
    cases walker with
    | csharp | typescript => exact iff_of_false (fun ⟨n, _, huses⟩ => hmakes n huses) id
    | python => exact exists_congr fun n => and_congr_right fun _ => Python.uses_visit_iff hbuiltin
  | visualBasic =>
    refine iff_of_false ?_ id
    change ¬ ∃ rel ∈ (surveyOfLines settings fs source _ _ _).relations.filter _, _
    rw [relations_surveyOfLines]
    split
    · simp
    · rw [exists_use_iff]
      exact VisualBasic.not_uses_facts _ _ hbuiltin
  | dart =>
    have hfacts : Dart.facts source.path source.content = _ :=
      Dart.rangeFacts_eq_flatMap_steps (.ofSource source) (.ofSource source)
    change (∃ rel ∈ (surveyOfLines settings fs source _ _ _).relations.filter _, _) ↔ _
    rw [relations_surveyOfLines, hfacts, Overlooks, Dart.run]
    split
    · simp
    · rw [exists_use_iff, uses_flatMap_iff]
      exact exists_congr fun n => and_congr_right fun _ => Dart.uses_results_iff hbuiltin

/-- A string that is constructed in a constructor of Visual Basic. -/
def newStringSource : Source where
  path := "Names.vb"
  content := "Class Names\n  Sub New()\n    Dim dashes = New String(\"-\"c, 8)\n  End Sub\nEnd Class\n"

theorem uses_builtin_iff_newStringSource :
    visualBasic.types.isBuiltin "String" = true ∧
      ¬ ∃ rel ∈ (visualBasic.survey {} {} newStringSource).relationsOf .uses,
        rel.target = "String" :=
  ⟨by decide, (uses_builtin_iff visualBasic {} {} newStringSource (by decide)).not.mpr id⟩

/-- An extension on strings. -/
def shoutSource : Source where
  path := "shout.dart"
  content := "extension Shout on String \x7b\n\x7d\n"

/-- The extension is reported to use a type that is built in. -/
theorem extension_uses_builtin :
    dart.types.isBuiltin "String" = true ∧
      ((dart.survey {} {} shoutSource).relationsOf .uses).map (·.target) = ["String"] := by
  decide +kernel

end Language

end CodeSurvey
