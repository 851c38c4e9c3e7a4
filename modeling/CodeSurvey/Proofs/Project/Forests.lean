import CodeSurvey.Frontend.Project
import Mathlib

/-!
# Elements as they are met

Reading a project goes through what is met in the file once and keeps the names of the open elements
and one open reference. Where no reference element stands within another, this gives one reference for
each of them that includes or updates something, in the order of the file. Its version is the last
text that stands directly in an element `Version` within it, or else what its attributes say.
-/

namespace CodeSurvey.Project

open Markup (Located Tag localPart)

/-! ## Forests -/

/-- Texts, elements and all else in the order in which they are met, with the position reached before
each. A text comes with its value. -/
inductive Forest where
  | done
  | text (position : Nat) (raw value : String) (decodes : Markup.unescape raw = .ok value)
      (rest : Forest)
  | skipped (position : Nat) (rest : Forest)
  | empty (position : Nat) (tag : Tag) (rest : Forest)
  | element (position : Nat) (tag : Tag) (inner : Forest) (closing : Nat) (rest : Forest)

/-- The reference that a tag on a line makes, with the versions that stand within its element. -/
def referenceOf? (tag : Tag) (line : Nat) (versions : List String) : Option Reference :=
  (ReferenceKind.ofTagName? (localPart tag.name)).bind fun kind =>
    ((tag.attribute? "Include").or (tag.attribute? "Update")).map fun included =>
      { kind, included, line
        version := versions.getLast?.or
          ((tag.attribute? "Version").or (tag.attribute? "VersionOverride")) }

namespace Forest

def events : Forest → List Located
  | done => []
  | text position raw _ _ rest => ⟨position, .text raw⟩ :: rest.events
  | skipped position rest => ⟨position, .skipped⟩ :: rest.events
  | empty position tag rest => ⟨position, .empty tag⟩ :: rest.events
  | element position tag inner closing rest =>
    ⟨position, .opened tag⟩ :: (inner.events ++ ⟨closing, .closed⟩ :: rest.events)

/-- No reference element stands within another; `within` says that there is one around. -/
def Flat (within : Bool) : Forest → Prop
  | done => True
  | text _ _ _ _ rest => rest.Flat within
  | skipped _ rest => rest.Flat within
  | empty _ tag rest =>
    (within = true → ReferenceKind.ofTagName? (localPart tag.name) = none) ∧ rest.Flat within
  | element _ tag inner _ rest =>
    (within = true → ReferenceKind.ofTagName? (localPart tag.name) = none) ∧
      inner.Flat (within || (ReferenceKind.ofTagName? (localPart tag.name)).isSome) ∧
      rest.Flat within

instance decidableFlat (within : Bool) : (f : Forest) → Decidable (f.Flat within)
  | done => .isTrue trivial
  | text _ _ _ _ rest => decidableFlat within rest
  | skipped _ rest => decidableFlat within rest
  | empty _ _ rest =>
    have := decidableFlat within rest
    inferInstanceAs (Decidable (_ ∧ _))
  | element _ tag inner _ rest =>
    have := decidableFlat (within || (ReferenceKind.ofTagName? (localPart tag.name)).isSome) inner
    have := decidableFlat within rest
    inferInstanceAs (Decidable (_ ∧ _ ∧ _))

/-- The trimmed texts that stand directly in elements `Version`; `inVersion` says that the element
around is one. -/
def versions (inVersion : Bool) : Forest → List String
  | done => []
  | text _ _ value _ rest =>
    (if inVersion then [Text.trim value] else []) ++ rest.versions inVersion
  | skipped _ rest => rest.versions inVersion
  | empty _ _ rest => rest.versions inVersion
  | element _ tag inner _ rest =>
    inner.versions (localPart tag.name = "Version") ++ rest.versions inVersion

/-- The references in the order of their tags; `line` tells the line of a tag from its position. -/
def references (line : Nat → Nat) : Forest → List Reference
  | done => []
  | text _ _ _ _ rest => rest.references line
  | skipped _ rest => rest.references line
  | empty position tag rest =>
    (referenceOf? tag (line position) []).toList ++ rest.references line
  | element position tag inner _ rest =>
    (referenceOf? tag (line position) (inner.versions false)).toList ++
      (inner.references line ++ rest.references line)

end Forest

/-! ## Tags -/

theorem ReferenceKind.tagName_ne_version (kind : ReferenceKind) :
    (decide (kind.tagName = "Version")) = false := by cases kind <;> decide

theorem tagName_of_kindOf? {name : String} {kind : ReferenceKind}
    (h : ReferenceKind.ofTagName? name = some kind) : name = kind.tagName := by
  have hname := List.find?_some h
  exact (of_decide_eq_true hname).symm

theorem tagName_ne_of_kindOf? {name : String} (h : ReferenceKind.ofTagName? name = none)
    (kind : ReferenceKind) : name ≠ kind.tagName := by
  intro heq
  have hnone := List.find?_eq_none.mp h kind (by cases kind <;> decide)
  exact hnone (decide_eq_true heq.symm)

theorem reference?_eq_none {tag : Tag}
    (h : ReferenceKind.ofTagName? (localPart tag.name) = none) (line : Nat) :
    reference? tag line = none := by
  rw [reference?, h]
  rfl

/-- The versions within its element are put in place of the version that a tag gives. -/
theorem referenceOf?_eq (tag : Tag) (line : Nat) (versions : List String) :
    referenceOf? tag line versions =
      (reference? tag line).map fun r => { r with version := versions.getLast?.or r.version } := by
  have htag : reference? tag line = (ReferenceKind.ofTagName? (localPart tag.name)).bind fun kind =>
      ((tag.attribute? "Include").or (tag.attribute? "Update")).bind fun included =>
        some ⟨kind, included, (tag.attribute? "Version").or (tag.attribute? "VersionOverride"),
          line⟩ := rfl
  rw [htag, referenceOf?]
  cases ReferenceKind.ofTagName? (localPart tag.name) with
  | none => rfl
  | some kind => cases (tag.attribute? "Include").or (tag.attribute? "Update") <;> rfl

theorem referenceOf?_eq_none {tag : Tag} (h : ReferenceKind.ofTagName? (localPart tag.name) = none)
    (line : Nat) (versions : List String) : referenceOf? tag line versions = none := by
  rw [referenceOf?_eq, reference?_eq_none h, Option.map_none]

theorem referenceOf?_nil (tag : Tag) (line : Nat) :
    referenceOf? tag line [] = reference? tag line := by
  rw [referenceOf?_eq]
  cases reference? tag line <;> rfl

/-- Within a reference there are no others. -/
theorem Forest.references_eq_nil {f : Forest} (h : f.Flat true) (line : Nat → Nat) :
    f.references line = [] := by
  induction f with
  | done => rfl
  | text _ _ _ _ _ ih | skipped _ _ ih => exact ih h
  | empty position tag rest ih =>
    rw [references, referenceOf?_eq_none (h.1 rfl), ih h.2]
    rfl
  | element position tag inner closing rest ihInner ihRest =>
    rw [references, referenceOf?_eq_none (h.1 rfl), ihInner h.2.1, ihRest h.2.2]
    rfl

/-! ## The open reference -/

namespace Progress

variable {p : Progress}

/-- Whether the innermost open element is one for versions. -/
def inVersion (p : Progress) : Bool := p.opened.head? = some "Version"

/-- The open reference with a version in place of its own, if there is one. -/
def pendingWith (p : Progress) (version : Option String) : Option Reference :=
  p.pending.map fun r => { r with version := version.or r.version }

theorem pendingWith_none (p : Progress) : p.pendingWith none = p.pending := by
  simp [pendingWith]

/-- All is as before but the version of the open reference. -/
structure Updates (p q : Progress) (version : Option String) : Prop where
  opened_eq : q.opened = p.opened
  references_eq : q.references = p.references
  pending_eq : q.pending = p.pendingWith version

namespace Updates

variable {q r : Progress} {v w : Option String}

theorem refl (p : Progress) : Updates p p none := ⟨rfl, rfl, p.pendingWith_none.symm⟩

theorem trans (h : Updates p q v) (h' : Updates q r w) : Updates p r (w.or v) where
  opened_eq := h'.opened_eq.trans h.opened_eq
  references_eq := h'.references_eq.trans h.references_eq
  pending_eq := by
    rw [h'.pending_eq, pendingWith, h.pending_eq, pendingWith, pendingWith, Option.map_map]
    congr 1
    funext r
    simp [Option.or_assoc]

theorem inVersion_eq (h : Updates p q v) : q.inVersion = p.inVersion := by
  rw [inVersion, h.opened_eq]
  rfl

end Updates

/-- A text gives the open reference a version if it stands in an element for versions. -/
theorem updates_text (p : Progress) (value : String) :
    p.Updates (p.text value) (if p.inVersion then some (Text.trim value) else none) := by
  unfold Progress.text
  split
  · next heq => constructor <;> simp [inVersion, pendingWith, heq]
  · next name _ hname heq =>
    have hversion : name ≠ "Version" := hname
    constructor <;> simp [inVersion, pendingWith, heq, hversion]
  · next hversion _ =>
    have hnone : p.inVersion = false := by
      rw [inVersion, decide_eq_false_iff_not, List.head?_eq_some_iff]
      rintro ⟨rest, hrest⟩
      exact hversion rest hrest
    simpa [hnone] using Updates.refl p

end Progress

/-! ## Runs -/

section Runs

open Progress (Updates)

variable {content : String} {p q r : Progress} {xs ys : List Located} {e : Located}

theorem inVersion_openTag (p : Progress) (tag : Tag) (line : Nat) :
    (p.openTag tag line).inVersion = (localPart tag.name = "Version" : Bool) := by
  simp [Progress.inVersion, Progress.openTag]

/-- A tag that does not close the open reference closes its element only. -/
theorem closeTag_of_ne {name : String} {names : List String} (hopened : p.opened = name :: names)
    (hname : ∀ r ∈ p.pending, name ≠ r.kind.tagName) : p.closeTag = { p with opened := names } := by
  obtain ⟨opened, pending, references, properties⟩ := p
  obtain rfl : opened = name :: names := hopened
  cases pending with
  | none => rfl
  | some r => exact if_neg (hname r rfl)

/-- A tag that closes the open reference completes it. -/
theorem closeTag_of_eq {r : Reference} {names : List String}
    (hopened : p.opened = r.kind.tagName :: names) (hpending : p.pending = some r) :
    p.closeTag =
      { p with opened := names, pending := none, references := p.references ++ [r] } := by
  obtain ⟨opened, pending, references, properties⟩ := p
  obtain rfl : opened = r.kind.tagName :: names := hopened
  obtain rfl : pending = some r := hpending
  exact if_pos rfl

/-- An element that is no reference leaves what its content leaves. -/
theorem Updates.element {tag : Tag} (h : Updates (p.openTag tag line) q v)
    (hkind : ReferenceKind.ofTagName? (localPart tag.name) = none) : Updates p q.closeTag v := by
  have hopened : q.opened = localPart tag.name :: p.opened := h.opened_eq
  rw [closeTag_of_ne hopened fun r _ => tagName_ne_of_kindOf? hkind r.kind]
  refine ⟨rfl, h.references_eq, ?_⟩
  rw [h.pending_eq, Progress.pendingWith, Progress.openTag, reference?_eq_none hkind]
  rfl

/-- Taking in what is met leads from one progress to another. -/
def Reaches (content : String) (p : Progress) (xs : List Located) (q : Progress) : Prop :=
  xs.foldlM (Progress.next content) p = .ok q

theorem Reaches.cons (h : p.next content e = .ok q) (hrest : Reaches content q xs r) :
    Reaches content p (e :: xs) r := by
  rw [Reaches, List.foldlM_cons, h]
  exact hrest

theorem Reaches.append (h : Reaches content p xs q) (hmore : Reaches content q ys r) :
    Reaches content p (xs ++ ys) r := by
  rw [Reaches] at h
  rw [Reaches, List.foldlM_append, h]
  exact hmore

theorem next_text {position : Nat} {raw value : String} (h : Markup.unescape raw = .ok value) :
    p.next content ⟨position, .text raw⟩ = .ok (p.text value) := by
  simp only [Progress.next, h]

/-- Within a reference, all that is met leaves everything but its version as it was. -/
theorem exists_reaches_within (content : String) (f : Forest) (hflat : f.Flat true) (p : Progress) :
    ∃ q, Reaches content p f.events q ∧ p.Updates q (f.versions p.inVersion).getLast? := by
  induction f generalizing p with
  | done => exact ⟨p, rfl, .refl p⟩
  | text position raw value decodes rest ih =>
    have htext := p.updates_text value
    obtain ⟨q, hreach, hq⟩ := ih hflat (p.text value)
    refine ⟨q, .cons (next_text decodes) hreach, ?_⟩
    rw [htext.inVersion_eq] at hq
    rw [Forest.versions, List.getLast?_append]
    have hlast : (if p.inVersion then [Text.trim value] else []).getLast? =
        if p.inVersion then some (Text.trim value) else none := by
      cases p.inVersion <;> rfl
    rw [hlast]
    exact htext.trans hq
  | skipped position rest ih =>
    obtain ⟨q, hreach, hq⟩ := ih hflat p
    exact ⟨q, .cons rfl hreach, hq⟩
  | empty position tag rest ih =>
    have hsame : p.emptyTag tag (lineAhead content position) = p := by
      rw [Progress.emptyTag, reference?_eq_none (hflat.1 rfl)]
      simp
    obtain ⟨q, hreach, hq⟩ := ih hflat.2 p
    exact ⟨q, .cons (congrArg Except.ok hsame) hreach, hq⟩
  | element position tag inner closing rest ihInner ihRest =>
    obtain ⟨hkind, hinner, hrest⟩ := hflat
    obtain ⟨q, hreach, hq⟩ := ihInner hinner (p.openTag tag (lineAhead content position))
    rw [inVersion_openTag] at hq
    have hclosed := Updates.element hq (hkind rfl)
    obtain ⟨r, hreach', hr⟩ := ihRest hrest q.closeTag
    refine ⟨r, .cons rfl (hreach.append (.cons rfl hreach')), ?_⟩
    rw [hclosed.inVersion_eq] at hr
    rw [Forest.versions, List.getLast?_append]
    exact hclosed.trans hr

/-- References are added where none is open, and all else is as before. -/
structure Adds (p q : Progress) (new : List Reference) : Prop where
  opened_eq : q.opened = p.opened
  pending_eq : q.pending = none
  references_eq : q.references = p.references ++ new

namespace Adds

variable {new more : List Reference}

theorem trans (h : Adds p q new) (h' : Adds q r more) : Adds p r (new ++ more) where
  opened_eq := h'.opened_eq.trans h.opened_eq
  pending_eq := h'.pending_eq
  references_eq := by rw [h'.references_eq, h.references_eq, List.append_assoc]

theorem of_updates {v : Option String} (hp : p.pending = none) (h : p.Updates q v) :
    Adds p q [] where
  opened_eq := h.opened_eq
  pending_eq := by
    rw [h.pending_eq, Progress.pendingWith, hp]
    rfl
  references_eq := by rw [h.references_eq, List.append_nil]

theorem emptyTag (hp : p.pending = none) (tag : Tag) (line : Nat) :
    Adds p (p.emptyTag tag line) (referenceOf? tag line []).toList :=
  ⟨rfl, hp, by rw [referenceOf?_nil]; rfl⟩

/-- An element that is no reference has the references within it. -/
theorem element {tag : Tag} {line : Nat} (h : Adds (p.openTag tag line) q new)
    (hkind : ReferenceKind.ofTagName? (localPart tag.name) = none) : Adds p q.closeTag new := by
  have hopened : q.opened = localPart tag.name :: p.opened := h.opened_eq
  rw [closeTag_of_ne hopened fun r _ => tagName_ne_of_kindOf? hkind r.kind]
  exact ⟨rfl, h.pending_eq, h.references_eq⟩

/-- A reference is added when its element is closed. -/
theorem reference {tag : Tag} {line : Nat} {kind : ReferenceKind} {versions : List String}
    (hp : p.pending = none) (hkind : ReferenceKind.ofTagName? (localPart tag.name) = some kind)
    (h : Updates (p.openTag tag line) q versions.getLast?) :
    Adds p q.closeTag (referenceOf? tag line versions).toList := by
  have hopened : q.opened = kind.tagName :: p.opened := by
    rw [← tagName_of_kindOf? hkind]
    exact h.opened_eq
  have hpending : q.pending = referenceOf? tag line versions := by
    rw [h.pending_eq, referenceOf?_eq, Progress.pendingWith, Progress.openTag, hp, Option.or_none]
  cases hreference : referenceOf? tag line versions with
  | none =>
    rw [hreference] at hpending
    rw [closeTag_of_ne hopened (by simp [hpending])]
    exact ⟨rfl, hpending, by rw [h.references_eq]; exact (List.append_nil _).symm⟩
  | some r =>
    rw [hreference] at hpending
    have hkind' : r.kind = kind := by
      rw [referenceOf?, hkind] at hreference
      obtain ⟨included, -, rfl⟩ := Option.map_eq_some_iff.mp hreference
      rfl
    rw [← hkind'] at hopened
    rw [closeTag_of_eq hopened hpending]
    exact ⟨rfl, rfl, by rw [h.references_eq]; rfl⟩

end Adds

/-- Outside of references, all that is met adds its references. -/
theorem exists_reaches_outside (content : String) (f : Forest) (hflat : f.Flat false)
    (hp : p.pending = none) :
    ∃ q, Reaches content p f.events q ∧ Adds p q (f.references (lineAhead content)) := by
  induction f generalizing p with
  | done => exact ⟨p, rfl, .of_updates hp (.refl p)⟩
  | text position raw value decodes rest ih =>
    have htext := Adds.of_updates hp (p.updates_text value)
    obtain ⟨q, hreach, hq⟩ := ih hflat htext.pending_eq
    exact ⟨q, .cons (next_text decodes) hreach, htext.trans hq⟩
  | skipped position rest ih =>
    obtain ⟨q, hreach, hq⟩ := ih hflat hp
    exact ⟨q, .cons rfl hreach, hq⟩
  | empty position tag rest ih =>
    have htag := Adds.emptyTag hp tag (lineAhead content position)
    obtain ⟨q, hreach, hq⟩ := ih hflat.2 htag.pending_eq
    exact ⟨q, .cons rfl hreach, htag.trans hq⟩
  | element position tag inner closing rest ihInner ihRest =>
    obtain ⟨-, hinner, hrest⟩ := hflat
    -- the element is a reference, or has those within it
    have hown : ∃ q, Reaches content (p.openTag tag (lineAhead content position)) inner.events q ∧
        Adds p q.closeTag ((referenceOf? tag (lineAhead content position)
          (inner.versions false)).toList ++ inner.references (lineAhead content)) := by
      cases hkind : ReferenceKind.ofTagName? (localPart tag.name) with
      | none =>
        rw [hkind] at hinner
        have hpending : (p.openTag tag (lineAhead content position)).pending = none := by
          rw [Progress.openTag, reference?_eq_none hkind, hp]
          rfl
        obtain ⟨q, hreach, hq⟩ := ihInner hinner hpending
        rw [referenceOf?_eq_none hkind]
        exact ⟨q, hreach, hq.element hkind⟩
      | some kind =>
        rw [hkind] at hinner
        obtain ⟨q, hreach, hq⟩ := exists_reaches_within content inner hinner
          (p.openTag tag (lineAhead content position))
        rw [inVersion_openTag, tagName_of_kindOf? hkind, kind.tagName_ne_version] at hq
        rw [Forest.references_eq_nil hinner, List.append_nil]
        exact ⟨q, hreach, .reference hp hkind hq⟩
    obtain ⟨q, hreach, hq⟩ := hown
    obtain ⟨r, hreach', hr⟩ := ihRest hrest hq.pending_eq
    refine ⟨r, .cons rfl (hreach.append (.cons rfl hreach')), ?_⟩
    rw [Forest.references, ← List.append_assoc]
    exact hq.trans hr

end Runs

/-- Reading a file that is read to its end finds its references. -/
theorem exists_of_forest {content : String} {forest : Forest}
    (hevents : (Markup.read content).events = forest.events)
    (hfault : (Markup.read content).fault = none) (hflat : forest.Flat false) :
    ∃ p, readProject content = .ok p ∧ p.references = forest.references (lineAhead content) := by
  have hnone : ({} : Progress).pending = none := rfl
  obtain ⟨p, hreach, hadds⟩ := exists_reaches_outside content forest hflat hnone
  refine ⟨p, ?_, hadds.references_eq⟩
  rw [Reaches, ← hevents] at hreach
  simp only [readProject, hreach, hfault]
  rfl

end CodeSurvey.Project
