import CodeSurvey.Proofs.Typing.Uses

/-!
# Decorators of TypeScript declarations

Decorators stand below a class or a member of it, below an export around it, or directly before it.
They are looked for in all three places. Below a node and beside it are different nodes, but those
directly before a declaration in an export are below the export as well: each of them is found twice.
-/

namespace CodeSurvey

/-! ## Siblings -/

namespace Site

variable {s x p : Site}

/-- The nearest named sibling before. -/
def previousNamed? (s : Site) : Option Site := s.allPrevious.find? (·.info.named)

/-- A site is in the unbroken run of decorators directly before another one. -/
inductive Leads (x : Site) : Site → Prop
  | directly {s : Site} (hprevious : s.previousNamed? = some x) (hkind : x.kind = "decorator") :
      Leads x s
  | before {s d : Site} (hprevious : s.previousNamed? = some d) (hkind : d.kind = "decorator")
      (h : Leads x d) : Leads x s

theorem leads_iff : x.Leads s ↔
    ∃ d, s.previousNamed? = some d ∧ d.kind = "decorator" ∧ (x = d ∨ x.Leads d) := by
  constructor
  · intro h
    cases h with
    | directly hprevious hkind => exact ⟨x, hprevious, hkind, .inl rfl⟩
    | before hprevious hkind h => exact ⟨_, hprevious, hkind, .inr h⟩
  · rintro ⟨d, hprevious, hkind, rfl | h⟩
    · exact .directly hprevious hkind
    · exact .before hprevious hkind h

/-- The decorators directly before a site, nearest first. -/
def leaders (s : Site) : List Site :=
  (s.allPrevious.filter (·.info.named)).takeWhile (·.kind = "decorator")

theorem mem_leaders_of_allPrevious {before : List Tree} (h : s.allPrevious = previousIn p before) :
    x ∈ s.leaders ↔ x.Leads s := by
  induction before generalizing s with
  | nil =>
    rw [leads_iff, leaders, previousNamed?, h]
    simp [previousIn]
  | cons t before ih =>
    have hnext := ih (s := child p before t) rfl
    rw [leads_iff, leaders, previousNamed?, h, previousIn]
    by_cases hnamed : (child p before t).info.named
    · by_cases hkind : (child p before t).kind = "decorator"
      · simpa [hnamed, hkind, leaders, allPrevious] using or_congr_right hnext
      · simp [hnamed, hkind]
    · rw [leads_iff, leaders, previousNamed?] at hnext
      simpa [hnamed, allPrevious] using hnext

theorem mem_leaders : x ∈ s.leaders ↔ x.Leads s := by
  cases s with
  | root tree =>
    have hnone : (root tree).allPrevious = previousIn (root tree) [] := rfl
    exact mem_leaders_of_allPrevious hnone
  | child parent before tree => exact mem_leaders_of_allPrevious rfl

theorem parent?_of_mem_previousIn {before : List Tree} (h : x ∈ previousIn p before) :
    x.parent? = some p ∧ x.rank < before.length := by
  induction before with
  | nil => cases h
  | cons t before ih =>
    rcases List.mem_cons.mp h with rfl | h
    · exact ⟨rfl, (length_previousIn p before).trans_lt (Nat.lt_succ_self _)⟩
    · exact ⟨(ih h).1, (ih h).2.trans (Nat.lt_succ_self _)⟩

theorem nodup_previousIn (p : Site) (before : List Tree) : (previousIn p before).Nodup := by
  induction before with
  | nil => exact List.nodup_nil
  | cons t before ih =>
    refine List.nodup_cons.mpr ⟨fun h => ?_, ih⟩
    have hlt := (parent?_of_mem_previousIn h).2
    exact absurd (length_previousIn p before) hlt.ne

theorem nodup_leaders (s : Site) : s.leaders.Nodup := by
  refine List.Nodup.sublist ((List.takeWhile_sublist _).trans List.filter_sublist) ?_
  cases s with
  | root tree => exact List.nodup_nil
  | child parent before tree => exact nodup_previousIn parent before

theorem mem_allPrevious_of_mem_leaders (h : x ∈ s.leaders) : x ∈ s.allPrevious :=
  List.mem_of_mem_filter ((List.takeWhile_sublist _).subset h)

theorem kind_of_mem_leaders (h : x ∈ s.leaders) : x.kind = "decorator" :=
  of_decide_eq_true (List.mem_takeWhile_imp (p := fun x : Site => x.kind = "decorator") h)

theorem parent?_of_mem_allPrevious (h : x ∈ s.allPrevious) : x.parent? = s.parent? := by
  cases s with
  | root tree => cases h
  | child parent before tree => exact (parent?_of_mem_previousIn h).1

/-! ## Children -/

theorem mem_belowIn_of_mem_allPrevious {before ts : List Tree} {h : Tree.sizes ts < p.size}
    {b : Below p} (hb : b ∈ belowIn p before ts h) (hx : x ∈ b.site.allPrevious) :
    x ∈ previousIn p before ∨ x ∈ (belowIn p before ts h).map (·.site) := by
  induction ts generalizing before with
  | nil => cases hb
  | cons t ts ih =>
    rcases List.mem_cons.mp hb with rfl | hb
    · exact .inl hx
    · rcases ih hb with hx | hx
      · rcases List.mem_cons.mp hx with rfl | hx
        · exact .inr List.mem_cons_self
        · exact .inl hx
      · exact .inr (List.mem_cons_of_mem _ hx)

/-- The site of a tree is among the children of the site above it. -/
theorem exists_mem_children {r : Site} (hs : s ∈ r.preorder) (hp : s.parent? = some p) :
    s = r ∨ ∃ b ∈ p.children, b.site = s := by
  induction r using below_induction with
  | step r ih =>
    rcases mem_preorder_iff.mp hs with rfl | ⟨c, hc, hs⟩
    · exact .inl rfl
    · rcases ih c hs with rfl | h
      · obtain rfl : r = p := Option.some.inj ((parent?_of_mem_children hc).symm.trans hp)
        exact .inr ⟨c, hc, rfl⟩
      · exact .inr h

/-- In a tree, the siblings before a node are below the node above it. -/
theorem mem_children_of_mem_allPrevious {tree : Tree} (hs : s ∈ (root tree).preorder)
    (hp : s.parent? = some p) (hx : x ∈ s.allPrevious) : x ∈ p.children.map (·.site) := by
  rcases exists_mem_children hs hp with rfl | ⟨b, hb, rfl⟩
  · cases hp
  · exact (mem_belowIn_of_mem_allPrevious hb hx).resolve_left (List.not_mem_nil)

theorem mem_sitesOf {kind : String} :
    x ∈ s.sitesOf kind ↔ x ∈ s.children.map (·.site) ∧ x.kind = kind := by
  simp only [sitesOf, childrenOf, List.mem_map, List.mem_filter, decide_eq_true_eq]
  constructor
  · rintro ⟨b, ⟨hb, hkind⟩, rfl⟩
    exact ⟨⟨b, hb, rfl⟩, hkind⟩
  · rintro ⟨⟨b, hb, rfl⟩, hkind⟩
    exact ⟨b, ⟨hb, hkind⟩, rfl⟩

theorem parent?_of_mem_sitesOf {kind : String} (h : x ∈ s.sitesOf kind) : x.parent? = some s := by
  obtain ⟨b, hb, rfl⟩ := List.mem_map.mp (mem_sitesOf.mp h).1
  exact parent?_of_mem_children hb

theorem nodup_sitesOf (s : Site) (kind : String) : (s.sitesOf kind).Nodup := by
  refine List.Nodup.sublist (List.filter_sublist.map _) ?_
  exact List.pairwise_map.mpr (pairwise_ne_children s)

/-- What is below a site is neither beside it nor below the site above it. -/
theorem disjoint_sitesOf {kind : String} {xs : List Site} (h : ∀ x ∈ xs, x.parent? = s.parent?) :
    List.Disjoint (s.sitesOf kind) xs := by
  intro x hbelow hbeside
  have hparent := h x hbeside
  rw [parent?_of_mem_sitesOf hbelow] at hparent
  exact absurd (depth_of_parent? hparent.symm) (Nat.ne_of_lt (Nat.lt_succ_self _))

end Site

/-! ## Decorators -/

namespace TypeScript

variable {s x : Site}

/-- A decorator of a declaration: below it, below an export around it, or directly before it. -/
def Decorates (x s : Site) : Prop :=
  x ∈ s.sitesOf "decorator" ∨ (∃ e, exportOf? s = some e ∧ x ∈ e.sitesOf "decorator") ∨ x.Leads s

theorem parent?_of_exportOf? {e : Site} (h : exportOf? s = some e) : s.parent? = some e :=
  (Option.filter_eq_some_iff.mp h).1

/-- The decorators of a declaration, each of them once, and those that are found again: the ones that
are directly before the declaration in an export. -/
structure Finds (s : Site) (all again : List Site) : Prop where
  nodup_all : all.Nodup
  mem_all : ∀ x, x ∈ all ↔ Decorates x s
  nodup_again : again.Nodup
  mem_again : ∀ x, x ∈ again ↔ (exportOf? s).isSome ∧ x.Leads s

/-- In a tree, decorators are looked up once in order and then those that are found again. -/
theorem exists_decorators_eq {tree : Tree} (hs : s ∈ (Site.root tree).preorder) :
    ∃ all again : List Site, decorators s = all ++ again ∧ Finds s all again := by
  have hbeside : ∀ x ∈ s.leaders, x.parent? = s.parent? := fun x hx =>
    Site.parent?_of_mem_allPrevious (Site.mem_allPrevious_of_mem_leaders hx)
  have hown := s.nodup_sitesOf "decorator"
  cases hexport : exportOf? s with
  | none =>
    refine ⟨s.sitesOf "decorator" ++ s.leaders, [], ?_, ?_, ?_, List.nodup_nil, by simp [hexport]⟩
    · simp [decorators, Site.leaders, hexport]
    · exact hown.append s.nodup_leaders (Site.disjoint_sitesOf hbeside)
    · simp [Decorates, hexport, Site.mem_leaders]
  | some e =>
    have hparent := parent?_of_exportOf? hexport
    have hleads (x : Site) (hx : x.Leads s) : x ∈ e.sitesOf "decorator" := by
      have hmem := Site.mem_leaders.mpr hx
      refine Site.mem_sitesOf.mpr ⟨?_, Site.kind_of_mem_leaders hmem⟩
      exact Site.mem_children_of_mem_allPrevious hs hparent
        (Site.mem_allPrevious_of_mem_leaders hmem)
    refine ⟨s.sitesOf "decorator" ++ e.sitesOf "decorator", s.leaders, ?_, ?_, ?_,
      s.nodup_leaders, by simp [hexport, Site.mem_leaders]⟩
    · simp [decorators, Site.leaders, hexport]
    · refine hown.append (e.nodup_sitesOf _) (Site.disjoint_sitesOf fun x hx => ?_)
      exact (Site.parent?_of_mem_sitesOf hx).trans hparent.symm
    · intro x
      simp only [List.mem_append, Decorates, hexport, Option.some.injEq, exists_eq_left']
      exact or_congr_right ⟨.inl, fun h => h.elim id (hleads x)⟩

/-! ## Attributes -/

def attributes (facts : List Fact) : List Fact := facts.filter (·.kind? = some .hasAttribute)

section Facts

variable {facts more : List Fact} {owner : String} {d : Declaration}

@[simp] theorem attributes_declare :
    attributes (.declare owner d :: facts) = attributes facts :=
  List.filter_cons_of_neg (by simp [Fact.kind?])

@[simp] theorem attributes_append : attributes (facts ++ more) = attributes facts ++ attributes more :=
  List.filter_append ..

theorem attributes_of_regular (owner : String)
    (h : AllRegular .typescript (fun _ => False) [owner] [] facts) : attributes facts = [] := by
  refine List.filter_eq_nil_iff.mpr fun f hf => ?_
  have hne : f.kind? ≠ some .hasAttribute := (h f hf).kind?_ne (by decide) (by decide)
  simpa using hne

@[simp] theorem attributes_decoratorFacts (u : SourceUnit) (s : Site) (name : String) :
    attributes (decoratorFacts u s name) = decoratorFacts u s name := by
  refine List.filter_eq_self.mpr fun f hf => ?_
  obtain ⟨x, -, rfl⟩ := List.mem_map.mp hf
  exact decide_eq_true rfl

end Facts

/-- A class, or a method or property of a type. -/
def Decorable : Scope → Site → Prop
  | .inside _ none, s => s.kind ∈ ["class_declaration", "abstract_class_declaration", "class"]
  | .inside _ (some _), _ => False
  | .memberOf _, s => s.kind ∈ ["method_definition", "abstract_method_signature", "method_signature",
      "public_field_definition", "field_definition", "property_signature"]

instance : (scope : Scope) → (s : Site) → Decidable (Decorable scope s)
  | .inside _ none, s => inferInstanceAs (Decidable (s.kind ∈ _))
  | .inside _ (some _), _ => inferInstanceAs (Decidable False)
  | .memberOf _, s => inferInstanceAs (Decidable (s.kind ∈ _))

section Visits

variable {u : SourceUnit} {owner : String}

/-- What is stated of a declaration that may have decorators: nothing if it has no name, or first the
declaration, with its decorators as the only attributes. -/
def Attributed (u : SourceUnit) (s : Site) (facts : List Fact) : Prop :=
  facts = [] ∨ ∃ d, leading? facts = some d ∧ attributes facts = decoratorFacts u s d.name

theorem Attributed.declare {d : Declaration} {name : String} {rest : List Fact} (hname : d.name = name)
    (hrest : attributes rest = []) :
    Attributed u s (.declare owner d :: decoratorFacts u s name ++ rest) :=
  .inr ⟨d, rfl, by simp [hrest, hname]⟩

theorem attributed_visitClass (s : Site) : Attributed u s (visitClass u owner s).results := by
  simp only [visitClass]
  split
  · exact .inl rfl
  · exact .declare (by split <;> rfl) (attributes_of_regular owner (by simp))

theorem attributed_visitMethod (s : Site) : Attributed u s (visitMethod u owner s).results := by
  simp only [visitMethod]
  split
  · exact .inl rfl
  · exact .declare (by split_ifs <;> rfl)
      (attributes_of_regular owner (regular_signatureFacts u _ s (by simp)))

theorem attributed_visitProperty (s : Site) : Attributed u s (visitProperty u owner s).results := by
  simp only [visitProperty]
  split
  · exact .inl rfl
  · exact .declare rfl (attributes_of_regular owner (by simp))

/-- The attributes that are stated at a class or a member of a type are its decorators. -/
theorem attributed_visit {scope : Scope} (h : Decorable scope s) :
    Attributed u s (visit u scope s).results := by
  cases scope with
  | memberOf type =>
    simp only [visit, visitMember]
    split_ifs with hmethod hproperty
    · exact attributed_visitMethod s
    · exact attributed_visitProperty s
    · simp_all [Decorable]
  | inside owner member =>
    cases member with
    | some name => exact h.elim
    | none =>
      have himport : s.kind ≠ "import_statement" := fun hkind => by simp [Decorable, hkind] at h
      have hclass : (visitOuter u owner s) = visitClass u owner s :=
        if_pos (List.contains_iff_mem.mpr h)
      simp only [visit, if_neg himport, hclass]
      exact attributed_visitClass s

theorem attributes_bodyFacts (member : String) (s : Site) : attributes (bodyFacts u member s) = [] := by
  have hdeed : Deed .typescript (fun _ => False) actionNodes s (bodyFacts u member s) :=
    deed_bodyFacts u member s
  generalize bodyFacts u member s = facts at hdeed ⊢
  cases hdeed with
  | regular hfacts => exact attributes_of_regular member (hfacts.mono (by simp) (by simp))
  | single hkind hnode => rcases hkind with rfl | rfl <;> rfl

theorem attributes_functionFacts (name : String) (s function : Site) :
    attributes (functionFacts u owner name s function) = [] :=
  attributes_declare.trans
    (attributes_of_regular owner (regular_signatureFacts u name function (by simp)))

theorem attributes_visitVariable (s : Site) : attributes (visitVariable u owner s).results = [] := by
  simp only [visitVariable]
  split
  · split
    · exact attributes_functionFacts _ _ _
    · rfl
  · rfl

/-- Nothing else has attributes. -/
theorem attributes_visit {scope : Scope} (h : ¬ Decorable scope s) :
    attributes (visit u scope s).results = [] := by
  cases scope with
  | memberOf type =>
    simp only [visit, visitMember]
    split_ifs with hmethod hproperty
    · simp_all [Decorable]
    · simp_all [Decorable]
    · rfl
  | inside owner member =>
    simp only [visit]
    split_ifs with himport
    · exact attributes_of_regular owner (by simp [Visit.done, importFacts])
    · cases member with
      | some name => exact attributes_bodyFacts name s
      | none =>
        have hclass : ¬ ["class_declaration", "abstract_class_declaration", "class"].contains s.kind :=
          fun hmem => h (List.contains_iff_mem.mp hmem)
        simp only [visitOuter, if_neg hclass]
        split_ifs
        · simp only [visitInterface]
          split
          · rfl
          · exact attributes_declare.trans (attributes_of_regular owner (by simp))
        · simp only [visitFunction]
          split
          · rfl
          · exact attributes_functionFacts _ s s
        · exact attributes_visitVariable s
        · rfl

end Visits

/-! ## Reports -/

/-- The attribute that a decorator gives to what it decorates. -/
def attributeOf (place : Place) (source : Source) (name : String) (x : Site) : Relation :=
  place.relation name
    (TypeRef.baseName (Text.trimStartWhere (· == '@') (x.text source.content))) .hasAttribute x.line []

/-- The attributes in a report that a visit of its survey states. -/
def attributesAt (place : Place) (source : Source) (n : Walker.typescript.Scope × Site) :
    List Relation :=
  statements place (attributes (Walker.typescript.results source n))

section Reports

variable {place : Place} {source : Source} {n : Walker.typescript.Scope × Site}

theorem mem_preorder_of_mem_visits (hn : n ∈ Walker.typescript.visits source) :
    ∃ tree, n.2 ∈ (Site.root tree).preorder := by
  obtain ⟨tree, -, hn⟩ := List.mem_flatMap.mp hn
  exact ⟨tree, (Walker.typescript.visited_sublist_preorder source tree).subset
    (List.mem_map_of_mem hn)⟩

theorem attributesAt_eq_nil
    (h : ¬ (Decorable n.1 n.2 ∧ (leading? (Walker.typescript.results source n)).isSome)) :
    attributesAt place source n = [] := by
  by_cases hdecorable : Decorable n.1 n.2
  · rcases attributed_visit hdecorable with hnone | ⟨d, hd, -⟩
    · exact congrArg (fun facts => statements place (attributes facts)) hnone
    · exact absurd ⟨hdecorable, Option.isSome_iff_exists.mpr ⟨d, hd⟩⟩ h
  · exact congrArg (statements place) (attributes_visit hdecorable)

theorem attributesAt_of_leading (place : Place) {d : Declaration} (h : Decorable n.1 n.2)
    (hd : leading? (Walker.typescript.results source n) = some d) :
    attributesAt place source n = (decorators n.2).map (attributeOf place source d.name) := by
  have hattributed : Attributed source.unit n.2 (Walker.typescript.results source n) :=
    attributed_visit h
  rcases hattributed with hnone | ⟨d', hd', hattributes⟩
  · rw [hnone] at hd
    cases hd
  · obtain rfl : d' = d := Option.some.inj (hd'.symm.trans hd)
    exact (congrArg (statements place) hattributes).trans (statements_map_edge ..)

end Reports

/-- The attributes in a report are those of classes and members of types, visit by visit. Where one of
these is declared, each of its decorators gives it an attribute, and those directly before it in an
export give it the same attribute once more. So there are as many attributes as decorators if and only
if the declaration is in no export or no decorator is directly before it. -/
theorem attributes_of_decorators (settings : Settings) (fs : FileSystem) (source : Source) :
    (survey settings fs source).relationsOf .hasAttribute =
        (Walker.typescript.visits source).flatMap (attributesAt (source.place settings fs) source) ∧
      ∀ n ∈ Walker.typescript.visits source,
        (attributesAt (source.place settings fs) source n ≠ [] →
          Decorable n.1 n.2 ∧ (leading? (Walker.typescript.results source n)).isSome) ∧
        ∀ d, Decorable n.1 n.2 → leading? (Walker.typescript.results source n) = some d →
          ∃ all again : List Site, Finds n.2 all again ∧
            attributesAt (source.place settings fs) source n =
              (all ++ again).map (attributeOf (source.place settings fs) source d.name) ∧
            ((attributesAt (source.place settings fs) source n).length = all.length ↔
              ¬ ((exportOf? n.2).isSome ∧ ∃ x : Site, x.Leads n.2)) := by
  refine ⟨?_, fun n hn => ⟨not_imp_comm.mp attributesAt_eq_nil, fun d hdecorable hd => ?_⟩⟩
  · change (Walker.typescript.survey settings fs source).relations.filter _ = _
    rw [Walker.relations_eq, filter_statements, List.filter_flatMap, statements, List.filterMap_flatMap]
    rfl
  · obtain ⟨tree, htree⟩ := mem_preorder_of_mem_visits hn
    obtain ⟨all, again, heq, hfinds⟩ := exists_decorators_eq htree
    have hattributes := attributesAt_of_leading (source.place settings fs) hdecorable hd
    rw [heq] at hattributes
    refine ⟨all, again, hfinds, hattributes, ?_⟩
    have hnone : again = [] ↔ ¬ ((exportOf? n.2).isSome ∧ ∃ x : Site, x.Leads n.2) := by
      simp only [List.eq_nil_iff_forall_not_mem, hfinds.mem_again, not_and, not_exists]
      exact ⟨fun h hexport x => h x hexport, fun h x hexport => h hexport x⟩
    rw [← hnone, hattributes, List.length_map, List.length_append, Nat.add_eq_left,
      List.length_eq_zero_iff]

/-- A node on one row of a text. -/
def nodeOn (row : Nat) (kind field : String) (named : Bool) (startByte endByte : Nat)
    (children : List Tree := []) : Tree :=
  .node ⟨kind, field, named, false, false, false, startByte, endByte, row, row⟩ children

/-- A decorated class in an export. -/
def cartSource : Source where
  path := "cart.ts"
  content := "@Injectable()\nexport class Cart \x7b\x7d\n"
  tree := some (.node ⟨"program", "", true, false, false, false, 0, 35, 0, 2⟩ [
    .node ⟨"export_statement", "", true, false, false, false, 0, 34, 0, 1⟩ [
      nodeOn 0 "decorator" "decorator" true 0 13 [
        nodeOn 0 "@" "" false 0 1,
        nodeOn 0 "call_expression" "" true 1 13 [
          nodeOn 0 "identifier" "function" true 1 11,
          nodeOn 0 "arguments" "arguments" true 11 13 [
            nodeOn 0 "(" "" false 11 12, nodeOn 0 ")" "" false 12 13]]],
      nodeOn 1 "export" "" false 14 20,
      nodeOn 1 "class_declaration" "declaration" true 21 34 [
        nodeOn 1 "class" "" false 21 26,
        nodeOn 1 "type_identifier" "name" true 27 31,
        nodeOn 1 "class_body" "body" true 32 34 [
          nodeOn 1 "\x7b" "" false 32 33, nodeOn 1 "\x7d" "" false 33 34]]]])

theorem attributes_of_decorators_cart :
    ∃ n ∈ Walker.typescript.visits cartSource, ∃ d, Decorable n.1 n.2 ∧
      leading? (Walker.typescript.results cartSource n) = some d ∧ d.name = "Cart" ∧
      ∃ all again : List Site, Finds n.2 all again ∧
        attributesAt (cartSource.place {} {}) cartSource n =
          (all ++ again).map (attributeOf (cartSource.place {} {}) cartSource d.name) := by
  have hcart : ((Walker.typescript.visits cartSource).any fun n : Scope × Site =>
      decide (Decorable n.1 n.2 ∧
        (leading? (Walker.typescript.results cartSource n)).map (·.name) = some "Cart")) = true := by
    decide +kernel
  obtain ⟨n, hn, hboth⟩ := List.any_eq_true.mp hcart
  obtain ⟨hdecorable, hleading⟩ := of_decide_eq_true hboth
  obtain ⟨d, hd, hname⟩ := Option.map_eq_some_iff.mp hleading
  obtain ⟨all, again, hfinds, hattributes, -⟩ :=
    ((attributes_of_decorators {} {} cartSource).2 n hn).2 d hdecorable hd
  exact ⟨n, hn, d, hdecorable, hd, hname, all, again, hfinds, hattributes⟩

/-- The only decorator in the tree is reported twice. -/
theorem attribute_twice_cart :
    (cartSource.tree.map fun tree => ((Site.root tree).ofKind "decorator").length) = some 1 ∧
      ((survey {} {} cartSource).relationsOf .hasAttribute).map (fun r => (r.source, r.target)) =
        [("Cart", "Injectable"), ("Cart", "Injectable")] := by
  decide +kernel

end TypeScript

end CodeSurvey
