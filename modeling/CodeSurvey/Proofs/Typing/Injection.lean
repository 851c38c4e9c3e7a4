import CodeSurvey.Proofs.Typing.Reports

/-!
# Injections and dependencies

An injection is stated as a relation and noted among the dependencies of the last element with the
name of its owner. Names are not unique, and elements are added and changed in between. The two
still agree: what ties an element to what it depends on is its name, its dependencies and the
injections of the report, and only an injection changes them together.
-/

namespace CodeSurvey

namespace Report

/-! ## Changing one item of a list -/

section Modify

variable {α : Type} {p : α → Bool} {f : α → α} {xs : List α} {x y : α}

/-- An item is there as before, or it is an old one changed. -/
theorem mem_or_of_mem_modifyFirst (h : y ∈ modifyFirst p f xs) :
    y ∈ xs ∨ ∃ x ∈ xs, p x = true ∧ y = f x := by
  fun_induction modifyFirst p f xs with
  | case1 => cases h
  | case2 x xs hx =>
    rcases List.mem_cons.mp h with rfl | h
    · exact .inr ⟨x, List.mem_cons_self, hx, rfl⟩
    · exact .inl (List.mem_cons_of_mem x h)
  | case3 x xs hx ih =>
    rcases List.mem_cons.mp h with rfl | h
    · exact .inl List.mem_cons_self
    · rcases ih h with h | ⟨z, hz, hp, rfl⟩
      · exact .inl (List.mem_cons_of_mem x h)
      · exact .inr ⟨z, List.mem_cons_of_mem x hz, hp, rfl⟩

/-- An item stays, or what it is changed to comes in its place. -/
theorem mem_modifyFirst_or (h : x ∈ xs) :
    x ∈ modifyFirst p f xs ∨ f x ∈ modifyFirst p f xs := by
  fun_induction modifyFirst p f xs with
  | case1 => cases h
  | case2 y xs hy =>
    rcases List.mem_cons.mp h with rfl | h
    · exact .inr List.mem_cons_self
    · exact .inl (List.mem_cons_of_mem _ h)
  | case3 y xs hy ih =>
    rcases List.mem_cons.mp h with rfl | h
    · exact .inl List.mem_cons_self
    · exact (ih h).imp (List.mem_cons_of_mem y) (List.mem_cons_of_mem y)

/-- Where an item satisfies the condition, one of them is changed. -/
theorem exists_mem_modifyFirst (h : x ∈ xs) (hx : p x = true) :
    ∃ z ∈ xs, p z = true ∧ f z ∈ modifyFirst p f xs := by
  fun_induction modifyFirst p f xs with
  | case1 => cases h
  | case2 y xs hy => exact ⟨y, List.mem_cons_self, hy, List.mem_cons_self⟩
  | case3 y xs hy ih =>
    rcases List.mem_cons.mp h with rfl | h
    · exact absurd hx hy
    · obtain ⟨z, hz, hp, hmem⟩ := ih h
      exact ⟨z, List.mem_cons_of_mem y hz, hp, List.mem_cons_of_mem y hmem⟩

/-- Changing the last item commutes with a view in which condition and change can be read. -/
theorem map_modifyLast_comm {β : Type} {view : α → β} {q : β → Bool} {g : β → β}
    (hp : ∀ x, p x = q (view x)) (hf : ∀ x, view (f x) = g (view x)) :
    (modifyLast p f xs).map view = modifyLast q g (xs.map view) := by
  have hfirst (ys : List α) :
      (modifyFirst p f ys).map view = modifyFirst q g (ys.map view) := by
    induction ys with
    | nil => rfl
    | cons y ys ih =>
      simp only [modifyFirst, List.map_cons, ← hp]
      split
      · rw [List.map_cons, hf]
      · rw [List.map_cons, ih]
  rw [modifyLast, modifyLast, List.map_reverse, hfirst, List.map_reverse]

end Modify

end Report

/-! ## What ties elements to their dependencies -/

theorem mem_addOnce {item x : String} {items : List String} :
    x ∈ addOnce item items ↔ x ∈ items ∨ x = item := by
  unfold addOnce
  split
  · next h =>
    have hitem : item ∈ items := by simpa using h
    constructor
    · exact .inl
    · rintro (hx | rfl)
      · exact hx
      · exact hitem
  · simp

theorem nodup_addOnce {item : String} {items : List String} (h : items.Nodup) :
    (addOnce item items).Nodup := by
  unfold addOnce
  split
  · exact h
  · next hitem =>
    rw [← List.concat_eq_append]
    exact h.concat (by simpa using hitem)

/-- The name of an element and what it depends on. -/
def Element.tie (e : Element) : String × List String := (e.name, e.dependencies)

/-- Names with their dependencies that agree with injections, and list each dependency once. -/
structure Wired (ties : List (String × List String)) (injections : List (String × String)) :
    Prop where
  listed : ∀ i ∈ injections, ∃ t ∈ ties, t.1 = i.1 ∧ i.2 ∈ t.2
  stated : ∀ t ∈ ties, ∀ d ∈ t.2, (t.1, d) ∈ injections
  once : ∀ t ∈ ties, t.2.Nodup

namespace Wired

variable {ties : List (String × List String)} {injections : List (String × String)}

/-- A name that depends on nothing yet. -/
theorem declare (h : Wired ties injections) (name : String) :
    Wired (ties ++ [(name, [])]) injections where
  listed i hi := by
    obtain ⟨t, ht, hlisted⟩ := h.listed i hi
    exact ⟨t, List.mem_append_left _ ht, hlisted⟩
  stated t ht d hd := by
    rcases List.mem_append.mp ht with ht | ht
    · exact h.stated t ht d hd
    · rw [List.mem_singleton.mp ht] at hd
      cases hd
  once t ht := by
    rcases List.mem_append.mp ht with ht | ht
    · exact h.once t ht
    · rw [List.mem_singleton.mp ht]
      exact List.nodup_nil

/-- An injection into a name that is there, noted at the last one of that name. -/
theorem inject (h : Wired ties injections) {owner target : String}
    (howner : owner ∈ ties.map (·.1)) :
    Wired (Report.modifyLast (·.1 = owner) (fun t => (t.1, addOnce target t.2)) ties)
      (injections ++ [(owner, target)]) where
  listed i hi := by
    rcases List.mem_append.mp hi with hi | hi
    · obtain ⟨t, ht, hname, hdep⟩ := h.listed i hi
      rcases Report.mem_modifyFirst_or (List.mem_reverse.mpr ht) with hmem | hmem
      · exact ⟨t, List.mem_reverse.mpr hmem, hname, hdep⟩
      · exact ⟨_, List.mem_reverse.mpr hmem, hname, mem_addOnce.mpr (.inl hdep)⟩
    · rw [List.mem_singleton.mp hi]
      obtain ⟨t, ht, hname⟩ := List.mem_map.mp howner
      obtain ⟨z, -, hz, hmem⟩ := Report.exists_mem_modifyFirst (p := (·.1 = owner))
        (f := fun t => (t.1, addOnce target t.2)) (List.mem_reverse.mpr ht) (decide_eq_true hname)
      exact ⟨_, List.mem_reverse.mpr hmem, of_decide_eq_true hz, mem_addOnce.mpr (.inr rfl)⟩
  stated t ht d hd := by
    rcases Report.mem_or_of_mem_modifyFirst (List.mem_reverse.mp ht) with ht | ⟨z, hz, hp, rfl⟩
    · exact List.mem_append_left _ (h.stated t (List.mem_reverse.mp ht) d hd)
    · rcases mem_addOnce.mp hd with hd | rfl
      · exact List.mem_append_left _ (h.stated z (List.mem_reverse.mp hz) d hd)
      · apply List.mem_append_right
        rw [List.mem_singleton, of_decide_eq_true hp]
  once t ht := by
    rcases Report.mem_or_of_mem_modifyFirst (List.mem_reverse.mp ht) with ht | ⟨z, hz, -, rfl⟩
    · exact h.once t (List.mem_reverse.mp ht)
    · exact nodup_addOnce (h.once z (List.mem_reverse.mp hz))

end Wired

namespace Report

def ties (r : Report) : List (String × List String) := r.elements.map Element.tie

/-- The injections, as pairs of owner and target. -/
def injections (r : Report) : List (String × String) :=
  (r.relationsOf .injects).map fun rel => (rel.source, rel.target)

def names (r : Report) : List String := r.ties.map (·.1)

variable {types : TypeSystem} {place : Place} {r : Report}

theorem injections_relate (place : Place) (r : Report) (source target : String)
    (kind : RelationKind) (line : Nat) (properties : List (String × Json)) :
    (r.relate place source target kind line properties).injections =
      r.injections ++ if kind = .injects then [(source, target)] else [] := by
  simp only [injections, relationsOf, relations_relate, List.filter_append, List.map_append]
  by_cases hkind : kind = .injects
  · simp [hkind]
  · simp [hkind]

theorem ties_record_close (position : Nat) (content : String) (lastLine : Nat) :
    (r.record place (.close position content lastLine)).ties = r.ties := by
  apply map_modify
  intro e
  rfl

theorem ties_record_inject (owner target : String) (line : Nat)
    (properties : List (String × Json)) :
    (r.record place (.inject owner target line properties)).ties =
      modifyLast (·.1 = owner) (fun t => (t.1, addOnce target t.2)) r.ties :=
  map_modifyLast_comm (fun _ => rfl) fun _ => rfl

theorem names_eq (r : Report) : r.names = r.marks.map (·.1.name) := by
  simp only [names, ties, marks, List.map_map]
  rfl

/-- No fact takes a name away. -/
theorem names_subset_recordAll (place : Place) (r : Report) (facts : List Fact) :
    r.names ⊆ (r.recordAll place facts).names := by
  rw [names_eq, names_eq, marks_recordAll, List.map_append]
  exact List.subset_append_left _ _

/-- A type is among the names from when it is recorded. -/
theorem typeNames_subset_names (f : Fact) : f.typeNames ⊆ (r.record place f).names := by
  rw [names_eq, marks_record, List.map_append]
  cases f with
  | declare owner d =>
    intro name hname
    rw [Fact.typeNames] at hname
    split at hname
    · exact List.mem_append_right _ hname
    · cases hname
  | relate | inject | close => exact List.nil_subset _

/-- A fact that keeps to the types of a language keeps injections and dependencies wired, if its
owners are names of elements. -/
theorem wired_record {f : Fact} {owners : List String} (h : Wired r.ties r.injections)
    (howners : owners ⊆ r.names) (hf : f.Typed types owners) :
    Wired (r.record place f).ties (r.record place f).injections := by
  cases f with
  | declare owner d =>
    have hties : (r.record place (.declare owner d)).ties = r.ties ++ [(d.name, [])] := by
      refine List.map_append.trans ?_
      change r.ties ++ [(d.name, d.dependencies)] = _
      rw [hf]
    have hinjections : (r.record place (.declare owner d)).injections = r.injections := by
      refine (injections_relate _ _ _ _ _ _ _).trans ?_
      exact List.append_nil _
    rw [hties, hinjections]
    exact h.declare d.name
  | relate source target kind line properties =>
    have hinjections :
        (r.record place (.relate source target kind line properties)).injections =
          r.injections := by
      refine (injections_relate _ _ _ _ _ _ _).trans ?_
      rw [if_neg hf.1, List.append_nil]
    rw [hinjections]
    exact h
  | inject owner target line properties =>
    have hinjections :
        (r.record place (.inject owner target line properties)).injections =
          r.injections ++ [(owner, target)] :=
      injections_relate place r owner target .injects line properties
    rw [hinjections, ties_record_inject]
    exact h.inject (howners hf.1)
  | close position content lastLine =>
    rw [ties_record_close]
    exact h

/-- Facts in the order of ownership that keep to the types of a language keep injections and
dependencies wired. -/
theorem wired_recordAll {known owners : List String} {facts : List Fact}
    (h : Wired r.ties r.injections) (hknown : known ⊆ r.names) (howners : owners ⊆ r.names)
    (howned : Owned known facts) (htyped : WellTyped types owners facts) :
    Wired (r.recordAll place facts).ties (r.recordAll place facts).injections := by
  induction howned generalizing r owners with
  | nil => exact h
  | @cons known f rest hfits hrest ih =>
    cases htyped with
    | cons hf htyped =>
      have hsub := names_subset_recordAll place r [f]
      refine ih (wired_record h howners hf) ?_ ?_ htyped
      · intro name hname
        rcases List.mem_append.mp hname with hname | hname
        · exact hsub (hknown hname)
        · exact typeNames_subset_names f hname
      · intro name hname
        rcases List.mem_append.mp hname with hname | hname
        · exact hsub (howners hname)
        · -- What declares something is known, so it is the name of an element.
          cases f with
          | declare owner d =>
            rw [List.mem_singleton.mp hname]
            exact hsub (hknown hfits.1)
          | relate | inject | close => cases hname

theorem ties_flagSyntaxError (line : Nat) : (r.flagSyntaxError line).ties = r.ties := by
  apply map_modifyFirst
  intro e
  rfl

/-- The path is always the name of an element, and injections and dependencies are wired. -/
theorem Read.wired (h : Read types place r) :
    place.path ∈ r.names ∧ Wired r.ties r.injections := by
  induction h with
  | opening content language =>
    refine ⟨List.mem_singleton.mpr rfl, ?_, ?_, ?_⟩
    · intro i hi
      exact absurd hi List.not_mem_nil
    · intro t ht d hd
      rw [List.mem_singleton.mp ht] at hd
      exact absurd hd List.not_mem_nil
    · intro t ht
      rw [List.mem_singleton.mp ht]
      exact List.nodup_nil
  | fail h failure ih => exact ih
  | flagSyntaxError h line ih =>
    rw [names, ties_flagSyntaxError]
    exact ih
  | @recordAll r h facts howned htyped ih =>
    obtain ⟨hpath, hwired⟩ := ih
    have hknown : [place.path] ⊆ r.names := List.cons_subset.mpr ⟨hpath, List.nil_subset _⟩
    refine ⟨?_, wired_recordAll hwired hknown (List.nil_subset _) howned htyped⟩
    exact names_subset_recordAll place r facts hpath
  | @detect r h settings bank scene ih =>
    obtain ⟨errors, hdetect⟩ := r.detect_eq settings bank scene
    rw [hdetect]
    exact ih

end Report

/-- Whatever is surveyed in a language with types of its own, every injection goes from the name of
an element that lists its target among its dependencies, every dependency of an element is injected
from its name, and no element lists a dependency twice. -/
theorem injections_agree_with_dependencies (settings : Settings) (fs : FileSystem) (source : Source)
    (types : TypeSystem) :
    ∃ r, (types.frontend settings).survey fs source = .ok r ∧
      (∀ rel ∈ r.relations, rel.kind = .injects →
        ∃ e ∈ r.elements, e.name = rel.source ∧ rel.target ∈ e.dependencies) ∧
      (∀ e ∈ r.elements, ∀ d ∈ e.dependencies,
        ∃ rel ∈ r.relations, rel.kind = .injects ∧ rel.source = e.name ∧ rel.target = d) ∧
      ∀ e ∈ r.elements, e.dependencies.Nodup := by
  obtain ⟨r, hr, hread⟩ := read_frontend settings fs source types
  obtain ⟨-, hwired⟩ := hread.wired
  refine ⟨r, hr, ?_, ?_, ?_⟩
  · intro rel hrel hkind
    have hmem : (rel.source, rel.target) ∈ r.injections :=
      List.mem_map.mpr ⟨rel, List.mem_filter.mpr ⟨hrel, decide_eq_true hkind⟩, rfl⟩
    obtain ⟨t, ht, hname, hdep⟩ := hwired.listed _ hmem
    obtain ⟨e, he, rfl⟩ := List.mem_map.mp ht
    exact ⟨e, he, hname, hdep⟩
  · intro e he d hd
    have hmem := hwired.stated e.tie (List.mem_map.mpr ⟨e, he, rfl⟩) d hd
    obtain ⟨rel, hrel, heq⟩ := List.mem_map.mp hmem
    obtain ⟨hrel, hkind⟩ := List.mem_filter.mp hrel
    exact ⟨rel, hrel, of_decide_eq_true hkind, congrArg Prod.fst heq, congrArg Prod.snd heq⟩
  · intro e he
    exact hwired.once e.tie (List.mem_map.mpr ⟨e, he, rfl⟩)

/-- Two classes of one name, the second with a constructor that takes two values of one type. -/
def doubledSource : Source where
  path := "a.vb"
  content := "Class A\nSub New(b As B)\nEnd Sub\nEnd Class\nClass A\nSub New(c As C, d As C)"

/-- Each class lists what its own constructor takes, once. -/
theorem dependencies_doubledSource :
    ∃ r, (TypeSystem.visualBasic.frontend {}).survey {} doubledSource = .ok r ∧
      ((r.elementsOf .type).map Element.tie, r.injections) =
        ([("A", ["B"]), ("A", ["C"])], [("A", "B"), ("A", "C"), ("A", "C")]) ∧
      ∀ e ∈ r.elements, e.dependencies.Nodup := by
  obtain ⟨r, hr, -, -, hnodup⟩ := injections_agree_with_dependencies {} {} doubledSource .visualBasic
  have hsurvey : VisualBasic.survey {} {} doubledSource = r := Except.ok.inj hr
  refine ⟨r, hr, ?_, hnodup⟩
  rw [← hsurvey]
  decide +kernel

end CodeSurvey
