import CodeSurvey.Proofs.Markup.Written
import CodeSurvey.Proofs.Project.Forests

/-!
# The references of a written project

A project refers to what its reference elements include or update. The version of a reference stands
in its tag, or is the last text that stands directly in an element `Version` within it. What is met in
a written project mirrors its elements, so reading the project file meets these references in order.
-/

namespace CodeSurvey.Project

open Markup (Opening Passage Content Located localPart)

/-! ## What a project refers to -/

/-- The value of the attribute with a name. -/
def valueOf? (o : Opening) (name : String) : Option String :=
  (o.attributes.find? fun a => localPart a.name.text = name).map (·.decoded)

def kindOf? (o : Opening) : Option ReferenceKind := ReferenceKind.ofTagName? (localPart o.name.text)

/-- What the tag of a reference includes or updates. -/
def included? (o : Opening) : Option String := (valueOf? o "Include").or (valueOf? o "Update")

/-- The version in a text directly within an element, if that is one for versions. -/
def versionIn? (p : Passage) (versions : Bool) : Option String :=
  if versions && !p.isBlank then some (Text.trim p.decoded) else none

/-- The last version in a content directly within an element, which may be one for versions. -/
def lastVersion? (versions : Bool) : Content → Option String
  | .done text => versionIn? text versions
  | .aside text _ rest => (lastVersion? versions rest).or (versionIn? text versions)
  | .empty text _ rest => (lastVersion? versions rest).or (versionIn? text versions)
  | .element text opening inner _ rest =>
    (lastVersion? versions rest).or
      ((lastVersion? (localPart opening.name.text = "Version") inner).or
        (versionIn? text versions))

/-- A reference element. -/
structure Entry where
  kind : ReferenceKind
  opening : Opening
  inner : Option Content

def Entry.version? (e : Entry) : Option String :=
  (e.inner.bind (lastVersion? false)).or
    ((valueOf? e.opening "Version").or (valueOf? e.opening "VersionOverride"))

/-- The reference of an element, without its line. -/
def Entry.reference? (e : Entry) : Option Reference :=
  (included? e.opening).map fun included => ⟨e.kind, included, e.version?, 0⟩

/-- The outermost reference elements of a content. -/
def entriesOf : Content → List Entry
  | .done _ => []
  | .aside _ _ rest => entriesOf rest
  | .empty _ opening rest =>
    ((kindOf? opening).map fun kind => ⟨kind, opening, none⟩).toList ++ entriesOf rest
  | .element _ opening inner _ rest =>
    match kindOf? opening with
    | some kind => ⟨kind, opening, some inner⟩ :: entriesOf rest
    | none => entriesOf inner ++ entriesOf rest

/-- No reference element stands within another; `within` says that there is one around. -/
def Flat (within : Bool) : Content → Prop
  | .done _ => True
  | .aside _ _ rest => Flat within rest
  | .empty _ opening rest => (within = true → kindOf? opening = none) ∧ Flat within rest
  | .element _ opening inner _ rest =>
    (within = true → kindOf? opening = none) ∧
      Flat (within || (kindOf? opening).isSome) inner ∧ Flat within rest

instance decidableFlat (within : Bool) : (c : Content) → Decidable (Flat within c)
  | .done _ => .isTrue trivial
  | .aside _ _ rest => decidableFlat within rest
  | .empty _ _ rest =>
    have := decidableFlat within rest
    inferInstanceAs (Decidable (_ ∧ _))
  | .element _ opening inner _ rest =>
    have := decidableFlat (within || (kindOf? opening).isSome) inner
    have := decidableFlat within rest
    inferInstanceAs (Decidable (_ ∧ _ ∧ _))

def Reference.unplaced (r : Reference) : Reference := { r with line := 0 }

/-! ## What is met -/

theorem attribute?_tag (o : Opening) (name : String) : o.tag.attribute? name = valueOf? o name :=
  o.attribute?_tag name

/-- The reference that is met is that of the element. -/
theorem unplaced_referenceOf? (o : Opening) (line : Nat) {versions : List String}
    (inner : Option Content) (h : versions.getLast? = inner.bind (lastVersion? false)) :
    (referenceOf? o.tag line versions).map Reference.unplaced =
      (kindOf? o).bind fun kind => Entry.reference? ⟨kind, o, inner⟩ := by
  simp only [referenceOf?, attribute?_tag, h]
  change Option.map _ ((kindOf? o).bind fun kind => (included? o).map _) = _
  cases kindOf? o <;> cases hincluded : included? o <;>
    simp [Entry.reference?, Entry.version?, Reference.unplaced, hincluded]

/-- What is met has the last versions and the references of something written. -/
structure Mirrors (flat : Bool → Prop) (last? : Bool → Option String) (references : List Reference)
    (f : Forest) : Prop where
  flat_of : ∀ within, flat within → f.Flat within
  versions_eq : ∀ inVersion, (f.versions inVersion).getLast? = last? inVersion
  references_eq : flat false → ∀ line,
    (f.references line).map Reference.unplaced = references

/-- A passage of text is met as a whole. -/
theorem Mirrors.passage {flat : Bool → Prop} {last? : Bool → Option String}
    {references : List Reference} {f : Forest} (h : Mirrors flat last? references f) (p : Passage)
    {located : List Located} (hlocated : located.map (·.event) = p.events) :
    ∃ g : Forest, g.events = located ++ f.events ∧
      Mirrors flat (fun inVersion => (last? inVersion).or (versionIn? p inVersion)) references g := by
  obtain ⟨hflat, hversions, hreferences⟩ := h
  cases hblank : p.isBlank with
  | true =>
    rw [Passage.events, hblank, if_pos rfl, List.map_eq_nil_iff] at hlocated
    subst hlocated
    exact ⟨f, rfl, hflat, fun v => by simp [versionIn?, hblank, hversions], hreferences⟩
  | false =>
    rw [Passage.events, hblank, if_neg Bool.false_ne_true, List.map_eq_singleton_iff] at hlocated
    obtain ⟨⟨position, event⟩, rfl, rfl⟩ := hlocated
    refine ⟨.text position _ p.decoded p.decodes f, rfl, hflat, fun v => ?_, hreferences⟩
    rw [Forest.versions, List.getLast?_append, hversions]
    cases v <;> simp [versionIn?, hblank]

/-- What is met of a content mirrors it, wherever it stands. -/
theorem exists_mirrors (c : Content) {located : List Located}
    (h : located.map (·.event) = c.events) :
    ∃ f : Forest, f.events = located ∧ Mirrors (Flat · c) (lastVersion? · c)
      ((entriesOf c).filterMap Entry.reference?) f := by
  induction c generalizing located with
  | done text =>
    have hdone : Mirrors (fun _ => True) (fun _ => none) [] .done :=
      ⟨fun _ _ => trivial, fun _ => rfl, fun _ _ => rfl⟩
    obtain ⟨f, hf, hmirrors⟩ := hdone.passage text h
    exact ⟨f, hf.trans (List.append_nil _), hmirrors⟩
  | aside text note rest ih =>
    obtain ⟨xs, ys, rfl, hxs, hys⟩ := List.map_eq_append_iff.mp h
    obtain ⟨⟨position, event⟩, ys, rfl, rfl, hmore⟩ := List.map_eq_cons_iff.mp hys
    obtain ⟨f, rfl, hf⟩ := ih hmore
    have hskipped : Mirrors _ _ _ (.skipped position f) := ⟨hf.1, hf.2, hf.3⟩
    exact hskipped.passage text hxs
  | empty text opening rest ih =>
    obtain ⟨xs, ys, rfl, hxs, hys⟩ := List.map_eq_append_iff.mp h
    obtain ⟨⟨position, event⟩, ys, rfl, rfl, hmore⟩ := List.map_eq_cons_iff.mp hys
    obtain ⟨f, rfl, hf⟩ := ih hmore
    have hempty : Mirrors (Flat · (.empty text opening rest)) (lastVersion? · rest)
        ((entriesOf (.empty text opening rest)).filterMap Entry.reference?)
        (.empty position opening.tag f) := by
      refine ⟨fun within hflat => ⟨hflat.1, hf.flat_of within hflat.2⟩, hf.versions_eq, ?_⟩
      intro hflat line
      have hown := unplaced_referenceOf? opening (line position) none List.getLast?_nil
      rw [Forest.references, List.map_append, hf.references_eq hflat.2, ← Option.toList_map, hown,
        entriesOf, List.filterMap_append]
      cases kindOf? opening with
      | none => rfl
      | some kind => cases hreference : Entry.reference? ⟨kind, opening, none⟩ <;> simp [hreference]
    exact hempty.passage text hxs
  | element text opening inner tail rest ihInner ihRest =>
    obtain ⟨xs, ys, rfl, hxs, hys⟩ := List.map_eq_append_iff.mp h
    obtain ⟨⟨position, event⟩, ys, rfl, rfl, hmore⟩ := List.map_eq_cons_iff.mp hys
    obtain ⟨inside, zs, rfl, hinside, hzs⟩ := List.map_eq_append_iff.mp hmore
    obtain ⟨⟨closing, event⟩, zs, rfl, rfl, hafter⟩ := List.map_eq_cons_iff.mp hzs
    obtain ⟨f, rfl, hf⟩ := ihInner hinside
    obtain ⟨g, rfl, hg⟩ := ihRest hafter
    have helement : Mirrors (Flat · (.element text opening inner tail rest))
        (fun v => (lastVersion? v rest).or
          (lastVersion? (localPart opening.name.text = "Version") inner))
        ((entriesOf (.element text opening inner tail rest)).filterMap Entry.reference?)
        (.element position opening.tag f closing g) := by
      refine ⟨?_, ?_, ?_⟩
      · exact fun within hflat => ⟨hflat.1, hf.flat_of _ hflat.2.1, hg.flat_of within hflat.2.2⟩
      · intro v
        rw [Forest.versions, List.getLast?_append, hg.versions_eq, hf.versions_eq]
        rfl
      · rintro ⟨-, hinner, hrest⟩ line
        have hown := unplaced_referenceOf? opening (line position) (some inner)
          (hf.versions_eq false)
        rw [Forest.references, List.map_append, List.map_append, hg.references_eq hrest,
          ← Option.toList_map, hown, entriesOf]
        cases hkind : kindOf? opening with
        | none =>
          rw [hkind] at hinner
          simp [hf.references_eq hinner]
        | some kind =>
          rw [hkind] at hinner
          rw [Forest.references_eq_nil (hf.flat_of true hinner)]
          cases hreference : Entry.reference? ⟨kind, opening, some inner⟩ <;> simp [hreference]
    obtain ⟨u, hu, hmirrors⟩ := helement.passage text hxs
    refine ⟨u, hu, hmirrors.1, fun v => ?_, hmirrors.3⟩
    rw [hmirrors.versions_eq, Option.or_assoc]
    rfl

/-- Reading a project finds its references, and their order is that of the file. -/
theorem references_readProject (d : Markup.Document) (hflat : Flat false d.content) :
    ∃ p, readProject d.text = .ok p ∧
      p.references.map Reference.unplaced =
        (entriesOf d.content).filterMap Entry.reference? := by
  obtain ⟨hevents, hfault⟩ := d.read_text
  obtain ⟨f, hf, hmirrors⟩ := exists_mirrors d.content hevents
  obtain ⟨p, hp, hreferences⟩ := exists_of_forest hf.symm hfault (hmirrors.flat_of false hflat)
  exact ⟨p, hp, hreferences ▸ hmirrors.references_eq hflat _⟩

end CodeSurvey.Project
