import CodeSurvey.Proofs.Report.Recording
import CodeSurvey.Proofs.Syntax.Trail
import CodeSurvey.Proofs.Typing.Reference

/-!
# Facts in the order of ownership

What owns a declaration has to be known when the declaration is stated: it is the file, or a type
declared before. Going through facts in order, the names known grow by the types that are declared.
Facts that declare nothing fit in anywhere. A survey in steps keeps to this order if each step states
at most one declaration, by the owner that it is made for, and goes on in the name of the type that it
declares or of the same owner. What else a step states is regular: relations that name types lead to
names that the language admits, and an injection goes to the owner of the declaration.
-/

namespace CodeSurvey

/-! ## Facts that fit anywhere -/

/-- Whether elements of a kind own others. -/
def ElementKind.IsType (kind : ElementKind) : Prop := kind = .type ∨ kind = .interface

instance (kind : ElementKind) : Decidable kind.IsType :=
  inferInstanceAs (Decidable (kind = .type ∨ kind = .interface))

theorem ElementKind.IsType.ne_file {kind : ElementKind} (h : kind.IsType) : kind ≠ .file := by
  rcases h with rfl | rfl <;> decide

@[simp] theorem ElementKind.isType_ite (c : Prop) [Decidable c] :
    (if c then ElementKind.interface else .type).IsType := by
  split <;> decide

@[simp] theorem ElementKind.not_isType_method : ¬ ElementKind.method.IsType := by decide

@[simp] theorem ElementKind.not_isType_property : ¬ ElementKind.property.IsType := by decide

namespace Declaration

variable (d : Declaration)

@[simp] theorem dependencies_addTag (tag : String) :
    (d.addTag tag).dependencies = d.dependencies := rfl

@[simp] theorem dependencies_addTags (tags : List String) :
    (d.addTags tags).dependencies = d.dependencies := by
  induction tags generalizing d with
  | nil => rfl
  | cons tag rest ih => exact ih (d.addTag tag)

@[simp] theorem dependencies_noteText? (key : String) (text : Option String) :
    (d.noteText? key text).dependencies = d.dependencies := by
  cases text <;> rfl

end Declaration

namespace Fact

/-- A fact that declares nothing and states no definition. -/
def Plain : Fact → Prop
  | declare _ _ => False
  | relate _ _ kind _ _ => kind ≠ .defines
  | inject _ _ _ _ => True
  | close _ _ _ => True

/-- A fact that can be stated where these names are known: a declaration of something other than the
file by one of them, or a plain fact. -/
def Fits (known : List String) : Fact → Prop
  | declare owner d => owner ∈ known ∧ d.kind ≠ .file
  | f => f.Plain

/-- The type that a fact declares. -/
def typeNames : Fact → List String
  | declare _ d => if d.kind.IsType then [d.name] else []
  | _ => []

theorem Plain.fits {f : Fact} (h : f.Plain) (known : List String) : f.Fits known := by
  cases f with
  | declare owner d => exact h.elim
  | relate | inject | close => exact h

theorem Plain.typeNames_eq {f : Fact} (h : f.Plain) : f.typeNames = [] := by
  cases f with
  | declare owner d => exact h.elim
  | relate | inject | close => rfl

theorem Fits.mono {f : Fact} {known known' : List String} (h : f.Fits known)
    (hsub : known ⊆ known') : f.Fits known' := by
  cases f with
  | declare owner d => exact ⟨hsub h.1, h.2⟩
  | relate | inject | close => exact h

variable {owner source target : String} {kind : RelationKind} {line : Nat}
  {properties : List (String × Json)}

@[simp] theorem plain_relate :
    (relate source target kind line properties).Plain ↔ kind ≠ .defines := Iff.rfl

@[simp] theorem plain_edge : (edge source target kind line).Plain ↔ kind ≠ .defines := Iff.rfl

@[simp] theorem plain_inject : (inject owner target line properties).Plain := trivial

@[simp] theorem plain_close {position : Nat} {content : String} {lastLine : Nat} :
    (close position content lastLine).Plain := trivial

end Fact

abbrev AllPlain (facts : List Fact) : Prop := AllFacts Fact.Plain facts

/-! ## Facts in order -/

def typesDeclared (facts : List Fact) : List String := facts.flatMap Fact.typeNames

theorem AllPlain.typesDeclared_eq {facts : List Fact} (h : AllPlain facts) :
    typesDeclared facts = [] :=
  List.flatMap_eq_nil_iff.mpr fun f hf => (h f hf).typeNames_eq

/-- A declaration with plain facts after it declares its type, if it is one. -/
theorem typesDeclared_declare {owner : String} {d : Declaration} {facts : List Fact}
    (h : AllPlain facts) :
    typesDeclared (.declare owner d :: facts) = if d.kind.IsType then [d.name] else [] := by
  change Fact.typeNames _ ++ typesDeclared facts = _
  rw [h.typesDeclared_eq, List.append_nil]
  rfl

/-- Facts each of which fits when these names are known and the types declared before it. -/
inductive Owned : List String → List Fact → Prop
  | nil {known : List String} : Owned known []
  | cons {known : List String} {f : Fact} {rest : List Fact} (hf : f.Fits known)
      (hrest : Owned (known ++ f.typeNames) rest) : Owned known (f :: rest)

namespace Owned

variable {known known' : List String} {facts : List Fact}

theorem mono (h : Owned known facts) (hsub : known ⊆ known') : Owned known' facts := by
  induction h generalizing known' with
  | nil => exact nil
  | cons hf hrest ih =>
    exact cons (hf.mono hsub) (ih (List.append_subset.mpr
      ⟨List.subset_append_of_subset_left _ hsub, List.subset_append_right _ _⟩))

theorem append {more : List Fact} (h : Owned known facts)
    (hmore : Owned (known ++ typesDeclared facts) more) : Owned known (facts ++ more) := by
  induction h with
  | nil => simpa [typesDeclared] using hmore
  | cons hf hrest ih =>
    refine cons hf (ih ?_)
    simpa [typesDeclared, List.append_assoc] using hmore

/-- What fits without anything declared before it may come after anything. -/
theorem append_right {more : List Fact} (h : Owned known facts) (hmore : Owned known more) :
    Owned known (facts ++ more) :=
  h.append (hmore.mono (List.subset_append_left _ _))

theorem of_plain (h : AllPlain facts) : Owned known facts := by
  induction facts generalizing known with
  | nil => exact nil
  | cons f rest ih =>
    obtain ⟨hf, hrest⟩ := AllFacts.cons_iff.mp h
    exact cons (hf.fits known) (ih hrest)

/-- A declaration by a name that is known, with plain facts about it. -/
theorem declare {owner : String} {d : Declaration} (howner : owner ∈ known) (hkind : d.kind ≠ .file)
    (hplain : AllPlain facts) : Owned known (.declare owner d :: facts) :=
  cons ⟨howner, hkind⟩ (of_plain hplain)

theorem flatMap {α : Type} {items : List α} {g : α → List Fact}
    (h : ∀ x ∈ items, Owned known (g x)) : Owned known (items.flatMap g) := by
  induction items with
  | nil => exact nil
  | cons x rest ih =>
    rw [List.flatMap_cons]
    exact (h x (by simp)).append_right (ih fun y hy => h y (by simp [hy]))

end Owned

/-- The type that a declaration declares is among those declared. -/
theorem mem_typesDeclared {owner : String} {d : Declaration} (h : d.kind.IsType)
    (facts : List Fact) : d.name ∈ typesDeclared (.declare owner d :: facts) := by
  simp [typesDeclared, Fact.typeNames, h]

/-! ## Regular facts -/

/-- Whether a regular relation may lead to a target. Where types are named, the language admits it; a
use may also be of what is made on the spot. Calls, throws and attributes may lead anywhere, where they
are free to be stated. -/
@[simp] def TypeSystem.Allows (types : TypeSystem) (makes : String → Prop) (free : List RelationKind)
    (target : String) : RelationKind → Prop
  | .defines | .injects => False
  | .acceptsType | .returnsType | .hasType | .usesGeneric => types.Admits target
  | .uses => types.Admits target ∨ makes target
  | .calls => .calls ∈ free
  | .throws => .throws ∈ free
  | .hasAttribute => .hasAttribute ∈ free
  | .imports | .inherits | .implements | .catches | .contains => True

namespace Fact

/-- A regular fact: a relation that is allowed, or an injection into one of these owners. -/
def Regular (types : TypeSystem) (makes : String → Prop) (owners : List String)
    (free : List RelationKind) : Fact → Prop
  | declare _ _ => False
  | relate _ target kind _ _ => types.Allows makes free target kind
  | inject owner target _ _ => owner ∈ owners ∧ types.Admits target
  | close _ _ _ => False

variable {types : TypeSystem} {makes : String → Prop} {owners owners' : List String}
  {free free' : List RelationKind} {f : Fact} {owner source target : String} {kind : RelationKind}
  {line : Nat} {properties : List (String × Json)}

@[simp] theorem regular_relate :
    (relate source target kind line properties).Regular types makes owners free ↔
      types.Allows makes free target kind := Iff.rfl

@[simp] theorem regular_edge :
    (edge source target kind line).Regular types makes owners free ↔
      types.Allows makes free target kind := Iff.rfl

@[simp] theorem regular_inject :
    (inject owner target line properties).Regular types makes owners free ↔
      owner ∈ owners ∧ types.Admits target := Iff.rfl

theorem Regular.mono (h : f.Regular types makes owners free) (howners : owners ⊆ owners')
    (hfree : free ⊆ free') : f.Regular types makes owners' free' := by
  cases f with
  | declare owner d => exact h
  | relate source target kind line properties =>
    cases kind with
    | calls | throws | hasAttribute => exact hfree h
    | _ => exact h
  | inject owner target line properties => exact ⟨howners h.1, h.2⟩
  | close position content lastLine => exact h

theorem Regular.plain (h : f.Regular types makes owners free) : f.Plain := by
  cases f with
  | declare owner d => exact h
  | relate source target kind line properties =>
    rintro rfl
    exact h
  | inject owner target line properties => trivial
  | close position content lastLine => exact h.elim

theorem Regular.quiet (h : f.Regular types makes owners free) : f.Quiet := by
  cases f with
  | declare owner d => exact h
  | relate | inject => trivial
  | close position content lastLine => exact h

/-- No fact of a kind is stated where it is not free to be. -/
theorem Regular.kind?_ne (h : f.Regular types makes owners free)
    (hkind : kind ∈ [.calls, .throws, .hasAttribute]) (hfree : kind ∉ free) :
    f.kind? ≠ some kind := by
  intro heq
  cases f with
  | declare owner d => exact h
  | relate source target stated line properties =>
    cases heq
    simp only [List.mem_cons, List.not_mem_nil, or_false] at hkind
    rcases hkind with rfl | rfl | rfl <;> exact hfree h
  | inject owner target line properties =>
    cases heq
    exact absurd hkind (by decide)
  | close position content lastLine => exact h

end Fact

abbrev AllRegular (types : TypeSystem) (makes : String → Prop) (owners : List String)
    (free : List RelationKind) (facts : List Fact) : Prop :=
  AllFacts (Fact.Regular types makes owners free) facts

/-- The kinds of relations that are free in the body of a member. -/
abbrev loose : List RelationKind := [.hasAttribute, .calls, .throws]

namespace AllRegular

variable {types : TypeSystem} {makes : String → Prop} {owners owners' : List String}
  {free free' : List RelationKind} {facts : List Fact}

theorem mono (h : AllRegular types makes owners free facts) (howners : owners ⊆ owners')
    (hfree : free ⊆ free') : AllRegular types makes owners' free' facts :=
  h.imp fun _ hf => hf.mono howners hfree

theorem plain (h : AllRegular types makes owners free facts) : AllPlain facts :=
  h.imp fun _ hf => hf.plain

theorem quiet (h : AllRegular types makes owners free facts) : AllQuiet facts :=
  h.imp fun _ hf => hf.quiet

@[simp] theorem typeFacts {source text : String} {kind : RelationKind} {line : Nat}
    (h : kind ∈ [.acceptsType, .returnsType, .hasType, .usesGeneric, .uses, .catches]) :
    AllRegular types makes owners free (CodeSurvey.typeFacts types source text kind line) := by
  have hallows (target : String) (htarget : types.Admits target) :
      types.Allows makes free target kind := by
    simp only [List.mem_cons, List.not_mem_nil, or_false] at h
    rcases h with rfl | rfl | rfl | rfl | rfl | rfl <;> simp [htarget]
  simp only [CodeSurvey.typeFacts, AllFacts.append_iff, AllFacts.map_iff, Option.mem_toList]
  exact ⟨fun name hname => hallows name (TypeRef.admits_outer hname), by simp⟩

end AllRegular

/-! ## Surveys in steps -/

/-- What one step of a survey states: regular facts, the end of a block, which is a step of its own in
Visual Basic alone, or first a declaration by an owner. -/
inductive Stated (types : TypeSystem) (makes : String → Prop) (owner : String)
    (declares : Declaration → Prop) : List Fact → Prop
  | plain {facts : List Fact} (h : AllRegular types makes [] loose facts) :
      Stated types makes owner declares facts
  | ending {position : Nat} {content : String} {lastLine : Nat} (h : types = .visualBasic) :
      Stated types makes owner declares [.close position content lastLine]
  | declaration {d : Declaration} {rest : List Fact} (hd : declares d) (hkind : d.kind ≠ .file)
      (hdependencies : d.dependencies = []) (hrest : AllRegular types makes [owner] loose rest) :
      Stated types makes owner declares (.declare owner d :: rest)

/-- A declaration is named after its owner and by what it calls itself. -/
def NamedBy (path owner : String) (calls : String → Prop) (d : Declaration) : Prop :=
  ∃ plain, calls plain ∧ d.name = qualify path owner plain

/-- The declaration that facts begin with. -/
def leading? : List Fact → Option Declaration
  | .declare _ d :: _ => some d
  | _ => none

/-- The name of the type that facts begin with. -/
def leadingType? (facts : List Fact) : Option String :=
  (leading? facts).bind fun d => if d.kind.IsType then some d.name else none

theorem AllPlain.leading?_eq {facts : List Fact} (h : AllPlain facts) : leading? facts = none := by
  cases facts with
  | nil => rfl
  | cons f rest =>
    cases f with
    | declare owner d => exact (AllFacts.cons_iff.mp h).1.elim
    | relate | inject | close => rfl

theorem AllPlain.leadingType?_eq {facts : List Fact} (h : AllPlain facts) :
    leadingType? facts = none := by
  rw [leadingType?, h.leading?_eq, Option.bind_none]

namespace Stated

variable {types : TypeSystem} {makes : String → Prop} {owner : String}
  {declares declares' : Declaration → Prop} {known : List String} {facts : List Fact}

theorem imp (h : Stated types makes owner declares facts) (himp : ∀ d, declares d → declares' d) :
    Stated types makes owner declares' facts := by
  cases h with
  | plain h => exact .plain h
  | ending h => exact .ending h
  | declaration hd hkind hdependencies hrest => exact .declaration (himp _ hd) hkind hdependencies hrest

theorem owned (h : Stated types makes owner declares facts) (howner : owner ∈ known) :
    Owned known facts := by
  cases h with
  | plain h => exact .of_plain h.plain
  | ending h => exact .of_plain (by simp)
  | declaration hd hkind hdependencies hrest => exact .declare howner hkind hrest.plain

/-- What is next is owned by the type declared, or by the same owner. -/
theorem getD_leadingType?_mem (h : Stated types makes owner declares facts) (howner : owner ∈ known) :
    (leadingType? facts).getD owner ∈ known ++ typesDeclared facts := by
  cases h with
  | plain h =>
    rw [h.plain.leadingType?_eq]
    exact List.mem_append_left _ howner
  | ending h => exact List.mem_append_left _ howner
  | @declaration d rest hd hkind hdependencies hrest =>
    rw [typesDeclared_declare hrest.plain]
    by_cases htype : d.kind.IsType <;> simp [leadingType?, leading?, htype, howner]

end Stated

/-! ## Actions at nodes -/

/-- A fact that is neither a call nor a throw. -/
def Fact.Idle (f : Fact) : Prop := f.kind? ≠ some .calls ∧ f.kind? ≠ some .throws

/-- What is stated at a site: no call and no throw, or a single one, on the line of the site, if the
node is of a kind that stands for it. -/
def ActsAt (nodeKinds : RelationKind → List String) (s : Site) (facts : List Fact) : Prop :=
  AllFacts Fact.Idle facts ∨ ∃ kind member target properties,
    s.kind ∈ nodeKinds kind ∧ facts = [.relate member target kind s.line properties]

/-- What a node in a body does: it states regular facts, or a single call or throw if it is of a kind
that stands for it. -/
inductive Deed (types : TypeSystem) (makes : String → Prop) (nodeKinds : RelationKind → List String)
    (s : Site) : List Fact → Prop
  | regular {facts : List Fact} (h : AllRegular types makes [] [] facts) :
      Deed types makes nodeKinds s facts
  | single {kind : RelationKind} {member target : String} {properties : List (String × Json)}
      (hkind : kind = .calls ∨ kind = .throws) (hnode : s.kind ∈ nodeKinds kind) :
      Deed types makes nodeKinds s [.relate member target kind s.line properties]

section Actions

variable {types : TypeSystem} {makes : String → Prop} {owners : List String}
  {nodeKinds : RelationKind → List String} {s : Site} {facts : List Fact}

theorem AllRegular.idle (h : AllRegular types makes owners [.hasAttribute] facts) :
    AllFacts Fact.Idle facts :=
  h.imp fun _ hf => ⟨hf.kind?_ne (by decide) (by decide), hf.kind?_ne (by decide) (by decide)⟩

theorem Deed.loosely (h : Deed types makes nodeKinds s facts) :
    AllRegular types makes [] loose facts := by
  cases h with
  | regular h => exact h.mono (List.Subset.refl _) (List.nil_subset _)
  | single hkind hnode => rcases hkind with rfl | rfl <;> simp

theorem Deed.actsAt (h : Deed types makes nodeKinds s facts) : ActsAt nodeKinds s facts := by
  cases h with
  | regular h => exact .inl (h.mono (List.Subset.refl _) (List.nil_subset _)).idle
  | single hkind hnode => exact .inr ⟨_, _, _, _, hnode, rfl⟩

/-- Of the facts of an action kind there is at most one. -/
theorem ActsAt.filter_eq (h : ActsAt nodeKinds s facts) {kind : RelationKind}
    (hkind : kind = .calls ∨ kind = .throws) :
    facts.filter (·.kind? = some kind) = [] ∨
      s.kind ∈ nodeKinds kind ∧ ∃ member target properties,
        facts.filter (·.kind? = some kind) = [.relate member target kind s.line properties] := by
  rcases h with hidle | ⟨stated, member, target, properties, hnode, rfl⟩
  · left
    rw [List.filter_eq_nil_iff]
    intro f hf
    rcases hkind with rfl | rfl
    · simpa using (hidle f hf).1
    · simpa using (hidle f hf).2
  · by_cases hstated : stated = kind
    · subst hstated
      exact .inr ⟨hnode, member, target, properties, by simp [Fact.kind?]⟩
    · exact .inl (by simp [Fact.kind?, hstated])

end Actions

/-! ## Explorations -/

/-- How the visits of a syntax tree state facts. -/
structure Manner (Mode : Type) where
  types : TypeSystem
  path : String
  /-- The owner of what a visit declares. -/
  ownerOf : Mode → String
  /-- The nodes that call and that throw. -/
  actionNodes : RelationKind → List String
  /-- What the declaration at a node calls itself. -/
  plainName? : Site → Option String
  /-- What a node uses without a look at whether it is built in. -/
  makes : Site → String → Prop

/-- A visit in the name of an owner: what it states is named after the owner and acts as the node does,
it asks for sites in order, and it goes on in the name of the type that it declares, or else of the same
owner. -/
structure Visit.Names {Mode : Type} {s : Site} (m : Manner Mode) (owner : String)
    (v : Visit Mode Fact s) : Prop where
  stated : Stated m.types (m.makes s) owner (NamedBy m.path owner (m.plainName? s = some ·)) v.results
  acts : ActsAt m.actionNodes s v.results
  orderly : v.Orderly
  next_owner : ∀ n ∈ v.next, m.ownerOf n.1 = (leadingType? v.results).getD owner

namespace Visit.Names

variable {Mode : Type} {s : Site} {m : Manner Mode} {owner : String} {results : List Fact}
  {mode : Mode} {below : List (Site.Below s)}

/-- A visit that declares nothing and goes on with the same owner. -/
theorem next (h : Deed m.types (m.makes s) m.actionNodes s results) (howner : m.ownerOf mode = owner)
    (hbelow : Site.Ordered below) :
    ({ results, next := below.map (mode, ·) } : Visit Mode Fact s).Names m owner := by
  refine ⟨.plain h.loosely, h.actsAt, .mk hbelow, ?_⟩
  intro n hn
  obtain ⟨b, -, rfl⟩ := List.mem_map.mp hn
  rw [h.loosely.plain.leadingType?_eq]
  exact howner

theorem onward (h : Deed m.types (m.makes s) m.actionNodes s results)
    (howner : m.ownerOf mode = owner) :
    (Visit.onward mode results : Visit Mode Fact s).Names m owner :=
  next h howner (.of_sublist (List.Sublist.refl _))

theorem plain (h : AllRegular m.types (m.makes s) [] [] results) :
    (Visit.done results : Visit Mode Fact s).Names m owner :=
  have hdeed : Deed m.types (m.makes s) m.actionNodes s results := .regular h
  ⟨.plain hdeed.loosely, hdeed.actsAt, .done _, by simp [Visit.done]⟩

/-- A visit that declares something with regular facts about it, and goes on in the name of the type
that it declares, or of the owner. -/
theorem declare {d : Declaration} {plain : String} (hcalls : m.plainName? s = some plain)
    (hname : d.name = qualify m.path owner plain) (hkind : d.kind ≠ .file)
    (hdependencies : d.dependencies = [])
    (hresults : AllRegular m.types (m.makes s) [owner] [.hasAttribute] results)
    (hmode : m.ownerOf mode = if d.kind.IsType then d.name else owner)
    (hbelow : Site.Ordered below) :
    ({ results := .declare owner d :: results, next := below.map (mode, ·) } :
      Visit Mode Fact s).Names m owner := by
  refine ⟨.declaration ⟨plain, hcalls, hname⟩ hkind hdependencies ?_, .inl ?_, .mk hbelow, ?_⟩
  · exact hresults.mono (List.Subset.refl _) (by decide)
  · exact AllFacts.cons_iff.mpr ⟨⟨by simp [Fact.kind?], by simp [Fact.kind?]⟩, hresults.idle⟩
  · intro n hn
    obtain ⟨b, -, rfl⟩ := List.mem_map.mp hn
    rw [hmode]
    by_cases htype : d.kind.IsType <;> simp [leadingType?, leading?, htype]

end Visit.Names

/-- An exploration whose visits all keep track of the owner is in the order of ownership. -/
theorem owned_explore {Mode : Type} {visit : Mode → (s : Site) → Visit Mode Fact s}
    {m : Manner Mode} (hnames : ∀ mode s, (visit mode s).Names m (m.ownerOf mode))
    (mode : Mode) (s : Site) {known : List String} (howner : m.ownerOf mode ∈ known) :
    Owned known (explore visit mode s) := by
  induction mode, s using explore.induct visit generalizing known with
  | case1 mode s ih =>
    have hvisit := hnames mode s
    rw [explore]
    apply (hvisit.stated.owned howner).append
    apply Owned.flatMap
    intro n hn
    apply ih n
    rw [hvisit.next_owner n hn]
    exact hvisit.stated.getD_leadingType?_mem howner

end CodeSurvey
