import CodeSurvey.Proofs.Report.Outline

/-!
# What recording facts adds to a report

Every fact but the end of a block states one relation, and the relations of a report are those that
its facts state, in the same order. Facts that only declare and relate add the elements that they
declare and leave those before as they are.
-/

namespace CodeSurvey

/-- The relation that is stated about a place. -/
def Place.relation (place : Place) (source target : String) (kind : RelationKind) (line : Nat)
    (properties : List (String × Json)) : Relation :=
  ({ source, target, kind, context := place.context : Relation }.atLine line).notes properties

/-- Notes by other keys leave what is noted by a key. -/
theorem Relation.get?_notes {key : String} (r : Relation) {entries : List (String × Json)}
    (h : ∀ e ∈ entries, e.1 ≠ key) :
    (r.notes entries).properties.get? key = r.properties.get? key := by
  induction entries generalizing r with
  | nil => rfl
  | cons e rest ih =>
    obtain ⟨he, hrest⟩ := List.forall_mem_cons.mp h
    exact (ih (r.note e.1 e.2) hrest).trans (Fields.get?_set_of_ne (Ne.symm he) _ _)

section Relations

variable (place : Place) (source target : String) (kind : RelationKind) (line : Nat)
  {properties : List (String × Json)}

@[simp] theorem source_relation :
    (place.relation source target kind line properties).source = source :=
  Relation.source_notes _ _

@[simp] theorem target_relation :
    (place.relation source target kind line properties).target = target :=
  Relation.target_notes _ _

@[simp] theorem kind_relation : (place.relation source target kind line properties).kind = kind :=
  Relation.kind_notes _ _

/-- The relation that is stated about a place carries the line. -/
theorem get?_line_relation (h : ∀ e ∈ properties, e.1 ≠ "line_number") :
    (place.relation source target kind line properties).properties.get? "line_number" =
      some (.nat line) :=
  (Relation.get?_notes _ h).trans (Fields.get?_set_self _ _ _)

/-- The line on which a relation is stated. -/
def Relation.line? (rel : Relation) : Option Nat :=
  match rel.properties.get? "line_number" with
  | some (.num (.int n)) => some n.toNat
  | _ => none

@[simp] theorem line?_relation : (place.relation source target kind line []).line? = some line := by
  rw [Relation.line?, get?_line_relation _ _ _ _ _ (List.forall_mem_nil _)]
  rfl

theorem Report.relations_relate (r : Report) :
    (r.relate place source target kind line properties).relations =
      r.relations ++ [place.relation source target kind line properties] := rfl

end Relations

/-! ## What facts state -/

namespace Fact

/-- The kind of the relation that a fact states. -/
def kind? : Fact → Option RelationKind
  | declare _ _ => some .defines
  | relate _ _ kind _ _ => some kind
  | inject _ _ _ _ => some .injects
  | close _ _ _ => none

def relation? (place : Place) : Fact → Option Relation
  | declare owner d => some (place.relation owner d.name .defines d.lineNumber [])
  | relate source target kind line properties =>
    some (place.relation source target kind line properties)
  | inject owner target line properties => some (place.relation owner target .injects line properties)
  | close _ _ _ => none

/-- The relation that a fact states is of the kind of the fact. -/
theorem map_kind_relation? (place : Place) (f : Fact) :
    (f.relation? place).map (·.kind) = f.kind? := by
  cases f with
  | declare | relate | inject => exact congrArg some (kind_relation _ _ _ _ _)
  | close position content lastLine => rfl

end Fact

def statements (place : Place) (facts : List Fact) : List Relation :=
  facts.filterMap (Fact.relation? place)

theorem filterMap_cons_eq_append {α β : Type} (f : α → Option β) (x : α) (xs : List α) :
    (x :: xs).filterMap f = (f x).toList ++ xs.filterMap f := by
  cases hx : f x with
  | none => exact List.filterMap_cons_none hx
  | some y => exact List.filterMap_cons_some hx

theorem statements_cons (place : Place) (f : Fact) (facts : List Fact) :
    statements place (f :: facts) = (f.relation? place).toList ++ statements place facts :=
  filterMap_cons_eq_append _ f facts

theorem statements_append (place : Place) (facts more : List Fact) :
    statements place (facts ++ more) = statements place facts ++ statements place more :=
  List.filterMap_append

theorem statements_map_edge {α : Type} (place : Place) (items : List α) (source : String)
    (target : α → String) (kind : RelationKind) (line : α → Nat) :
    statements place (items.map fun x => .edge source (target x) kind (line x)) =
      items.map fun x => place.relation source (target x) kind (line x) [] := by
  rw [statements, List.filterMap_map]
  exact congrFun List.filterMap_eq_map' items

/-- Of facts of one kind all are of a kind that is asked for, or none. -/
theorem filter_kind_map {α : Type} {items : List α} {g : α → Fact} {kind : RelationKind}
    (h : ∀ x, (g x).kind? = some kind) (wanted : RelationKind) :
    (items.map g).filter (·.kind? = some wanted) = if kind = wanted then items.map g else [] := by
  split
  · next heq => exact List.filter_eq_self.mpr (List.forall_mem_map.mpr fun x _ => by simp [h x, heq])
  · next hne => exact List.filter_eq_nil_iff.mpr (List.forall_mem_map.mpr fun x _ => by simp [h x, hne])

/-- The relations of a kind are those that the facts of the kind state. -/
theorem filter_statements (place : Place) (kind : RelationKind) (facts : List Fact) :
    (statements place facts).filter (·.kind = kind) =
      statements place (facts.filter (·.kind? = some kind)) := by
  induction facts with
  | nil => rfl
  | cons f rest ih =>
    have hkind := f.map_kind_relation? place
    rw [statements_cons, List.filter_append, ih]
    by_cases hf : f.kind? = some kind
    · rw [List.filter_cons_of_pos (by simpa using hf), statements_cons]
      obtain ⟨rel, hrel, rfl⟩ := Option.map_eq_some_iff.mp (hkind.trans hf)
      rw [hrel, Option.toList_some, List.filter_cons_of_pos (by simp), List.filter_nil]
    · rw [List.filter_cons_of_neg (by simpa using hf)]
      cases hrel : f.relation? place with
      | none => rfl
      | some rel =>
        have hne : rel.kind ≠ kind := by
          rintro rfl
          exact hf (by rw [← hkind, hrel, Option.map_some])
        rw [Option.toList_some, List.filter_cons_of_neg (by simpa using hne)]
        rfl

/-! ## What facts declare -/

namespace Fact

def element? (place : Place) : Fact → Option Element
  | declare _ d => some (d.toElement place.path place.context)
  | _ => none

/-- A fact that declares or relates. -/
def Additive : Fact → Prop
  | declare _ _ => True
  | relate _ _ _ _ _ => True
  | inject _ _ _ _ => False
  | close _ _ _ => False

@[simp] theorem additive_declare {owner : String} {d : Declaration} : (declare owner d).Additive :=
  trivial

@[simp] theorem additive_edge {source target : String} {kind : RelationKind} {line : Nat} :
    (edge source target kind line).Additive := trivial

end Fact

def declared (place : Place) (facts : List Fact) : List Element :=
  facts.filterMap (Fact.element? place)

theorem declared_flatMap {α : Type} (place : Place) (items : List α) (g : α → List Fact) :
    declared place (items.flatMap g) = items.flatMap fun x => declared place (g x) :=
  List.filterMap_flatMap

/-- A declaration with quiet facts about it declares nothing else. -/
theorem declared_declare (place : Place) {owner : String} {d : Declaration} {facts : List Fact}
    (h : AllQuiet facts) :
    declared place (.declare owner d :: facts) = [d.toElement place.path place.context] := by
  have hnone : declared place facts = [] := by
    refine List.filterMap_eq_nil_iff.mpr ?_
    intro f hf
    cases f with
    | declare owner d => exact (h _ hf).elim
    | relate | inject | close => rfl
  exact congrArg (_ :: ·) hnone

/-! ## Reports -/

namespace Report

theorem relations_record (place : Place) (r : Report) (f : Fact) :
    (r.record place f).relations = r.relations ++ (f.relation? place).toList := by
  cases f with
  | declare | relate | inject => rfl
  | close position content lastLine => exact (List.append_nil _).symm

theorem relations_recordAll (place : Place) (r : Report) (facts : List Fact) :
    (r.recordAll place facts).relations = r.relations ++ statements place facts := by
  induction facts generalizing r with
  | nil => exact (List.append_nil _).symm
  | cons f rest ih =>
    rw [statements_cons, ← List.append_assoc, ← relations_record]
    exact ih (r.record place f)

/-- Facts are no errors. -/
theorem errors_recordAll (place : Place) (r : Report) (facts : List Fact) :
    (r.recordAll place facts).errors = r.errors := by
  induction facts generalizing r with
  | nil => rfl
  | cons f rest ih =>
    refine (ih (r.record place f)).trans ?_
    cases f <;> rfl

/-- Facts that only declare and relate add what they declare. -/
theorem elements_recordAll (place : Place) (r : Report) {facts : List Fact}
    (h : ∀ f ∈ facts, f.Additive) :
    (r.recordAll place facts).elements = r.elements ++ declared place facts := by
  induction facts generalizing r with
  | nil => exact (List.append_nil _).symm
  | cons f rest ih =>
    obtain ⟨hf, hrest⟩ := List.forall_mem_cons.mp h
    refine (ih (r.record place f) hrest).trans ?_
    cases f with
    | declare owner d => exact List.append_assoc _ [d.toElement place.path place.context] _
    | relate source target kind line properties => rfl
    | inject | close => exact hf.elim

theorem elements_detect (r : Report) (settings : DetectorSettings) (bank : Bank) (scene : Scene) :
    (r.detect settings bank scene).elements = r.elements := by
  obtain ⟨errors, h⟩ := r.detect_eq settings bank scene
  rw [h]

theorem relations_detect (r : Report) (settings : DetectorSettings) (bank : Bank) (scene : Scene) :
    (r.detect settings bank scene).relations = r.relations := by
  obtain ⟨errors, h⟩ := r.detect_eq settings bank scene
  rw [h]

theorem relationsOf_detect (r : Report) (settings : DetectorSettings) (bank : Bank) (scene : Scene)
    (kind : RelationKind) :
    (r.detect settings bank scene).relationsOf kind = r.relationsOf kind := by
  rw [relationsOf, relations_detect, relationsOf]

theorem findings_detect (r : Report) (settings : DetectorSettings) (bank : Bank) (scene : Scene) :
    (r.detect settings bank scene).findings = r.findings ++
      ((bank.without settings.disabled).run { scene with margin := settings.margin }).findings := by
  obtain ⟨errors, h⟩ := r.detect_eq settings bank scene
  rw [h]

/-- Detection adds the failures of its detectors to the errors. -/
theorem errors_detect (r : Report) (settings : DetectorSettings) (bank : Bank) (scene : Scene) :
    (r.detect settings bank scene).errors = r.errors ++
      ((bank.without settings.disabled).run
        { scene with margin := settings.margin }).failures.map Failure.message := by
  rw [detect, foldl_fail]
  rfl

end Report

end CodeSurvey
