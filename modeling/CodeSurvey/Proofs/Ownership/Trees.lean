import CodeSurvey.Frontend.CSharp
import CodeSurvey.Frontend.Python
import CodeSurvey.Frontend.TypeScript
import CodeSurvey.Proofs.Ownership.Basic

/-!
# What the visits of syntax trees state

In the languages whose syntax trees are explored, a type is declared before anything inside of it is
visited, and what is visited inside a member keeps the owner of the member. What is declared is named
after its owner and by what its node calls itself. Every visit asks for sites in order, and states at
most one call or throw, only at a node of a kind that stands for it.
-/

namespace CodeSurvey

/-! ## C# -/

namespace CSharp

def actionNodes : RelationKind → List String
  | .calls => ["invocation_expression"]
  | .throws => ["throw_statement", "throw_expression"]
  | _ => []

def plainName? (u : SourceUnit) (s : Site) : Option String := s.fieldText? u.text "name"

@[simps] def manner (u : SourceUnit) : Manner Scope where
  types := .csharp
  path := u.path
  ownerOf := Scope.owner
  actionNodes := actionNodes
  plainName? := plainName? u
  makes _ _ := False

variable {makes : String → Prop} {owners : List String} {free : List RelationKind} (u : SourceUnit)
  (kind : ElementKind) (name : String) (s : Site)

@[simp] theorem kind_declaration : (declaration u kind name s).kind = kind := by
  simp [declaration]

@[simp] theorem name_declaration : (declaration u kind name s).name = name := by
  simp [declaration]

@[simp] theorem dependencies_declaration : (declaration u kind name s).dependencies = [] := by
  simp [declaration]

@[simp] theorem regular_importFacts (s : Site) :
    AllRegular .csharp makes owners free (importFacts u s) := by
  simp only [importFacts]
  split <;> simp

@[simp] theorem regular_attributeFacts (s : Site) (name : String) (h : .hasAttribute ∈ free) :
    AllRegular .csharp makes owners free (attributeFacts u s name) := by
  simp only [attributeFacts, AllFacts.filterMap_iff, Option.map_eq_some_iff]
  rintro a - f ⟨text, -, rfl⟩
  simpa using h

@[simp] theorem regular_baseFacts (name : String) (isInterface : Bool) (base : Site) :
    AllRegular .csharp makes owners free (baseFacts u name isInterface base) := by
  simp only [baseFacts, AllFacts.cons_iff, Fact.regular_edge]
  constructor
  · split <;> split <;> trivial
  · simp

@[simp] theorem regular_parameterFacts (owner name : String) (isConstructor : Bool) (p : Site) :
    AllRegular .csharp makes [owner] free (parameterFacts u owner name isConstructor p) := by
  simp only [parameterFacts]
  split
  · simp
  · cases isConstructor <;> simp

variable {u} {scope : Scope}

theorem deed_callFacts (member : String) {s : Site} (h : s.kind = "invocation_expression") :
    Deed .csharp makes actionNodes s (callFacts u member s) := by
  simp only [callFacts]
  split
  · exact .regular AllFacts.nil
  · split
    · exact .regular AllFacts.nil
    · exact .single (.inl rfl) (by simp [actionNodes, h])

theorem deed_throwFacts (member : String) {s : Site}
    (h : s.kind = "throw_statement" ∨ s.kind = "throw_expression") :
    Deed .csharp makes actionNodes s (throwFacts u member s) := by
  unfold throwFacts
  cases (s.childSite? "object_creation_expression").bind (·.fieldText? u.text "type") with
  | none => exact .regular AllFacts.nil
  | some type => exact .single (.inr rfl) (by simpa [actionNodes] using h)

theorem names_visitType (s : Site) : (visitType u scope s).Names (manner u) scope.owner := by
  simp only [visitType]
  split
  · exact .plain AllFacts.nil
  · next plain hplain =>
    refine .declare hplain (by simp) ?_ (by simp) (by simp) (by simp)
      (.getD_field? _ fun _ hb => .children hb)
    simpa using (ElementKind.isType_ite _).ne_file

theorem names_visitMethod (s : Site) : (visitMethod u scope s).Names (manner u) scope.owner := by
  simp only [visitMethod]
  split
  · exact .plain AllFacts.nil
  · next plain hplain =>
    apply Visit.Names.declare hplain
    · split <;> simp
    · split <;> simp
    · split <;> simp
    · simp
    · split <;> simp
    · exact .filter _

theorem names_visitProperty (s : Site) : (visitProperty u scope s).Names (manner u) scope.owner := by
  simp only [visitProperty]
  split
  · exact .plain AllFacts.nil
  · next plain hplain =>
    exact .declare hplain (by simp) (by simp) (by simp) (by simp) (by simp) (.filter _)

theorem names_visitBody (member : String) (s : Site) :
    (visitBody u scope member s).Names (manner u) scope.owner := by
  unfold visitBody
  split_ifs with hcall hnew hthrow hcatch
  · exact .onward (deed_callFacts member hcall) rfl
  · exact .onward (.regular (by simp)) rfl
  · exact .onward (deed_throwFacts member (by simpa using hthrow)) rfl
  · exact .plain (by simp)
  · exact .onward (.regular AllFacts.nil) rfl

theorem names_visit (scope : Scope) (s : Site) : (visit u scope s).Names (manner u) scope.owner := by
  unfold visit
  split_ifs
  · exact .plain (by simp)
  · exact names_visitType s
  · exact names_visitMethod s
  · exact names_visitProperty s
  · split
    · exact names_visitBody _ s
    · exact .onward (.regular AllFacts.nil) rfl

/-- The facts of a C# source are in the order of ownership. -/
theorem owned_facts (path text : String) (tree : Tree) : Owned [path] (facts path text tree) :=
  owned_explore names_visit _ _ (by simp)

end CSharp

/-! ## TypeScript -/

namespace TypeScript

def Scope.owner : Scope → String
  | inside owner _ => owner
  | memberOf type => type

def actionNodes : RelationKind → List String
  | .calls => ["call_expression"]
  | .throws => ["throw_statement"]
  | _ => []

def plainName? (u : SourceUnit) (s : Site) : Option String :=
  (s.fieldText? u.text "name").or (s.fieldText? u.text "property")

@[simps] def manner (u : SourceUnit) : Manner Scope where
  types := .typescript
  path := u.path
  ownerOf := Scope.owner
  actionNodes := actionNodes
  plainName? := plainName? u
  makes _ _ := False

variable {makes : String → Prop} {owners : List String} {free : List RelationKind} (u : SourceUnit)
  (kind : ElementKind) (name : String) (s : Site)

@[simp] theorem kind_declaration : (declaration u kind name s).kind = kind := rfl

@[simp] theorem name_declaration : (declaration u kind name s).name = name := rfl

@[simp] theorem dependencies_declaration : (declaration u kind name s).dependencies = [] := rfl

@[simp] theorem regular_decoratorFacts (s : Site) (name : String) (h : .hasAttribute ∈ free) :
    AllRegular .typescript makes owners free (decoratorFacts u s name) := by
  simp [decoratorFacts, h]

theorem regular_baseFacts (type : String) {kind : RelationKind} (base : Site)
    (h : kind = .inherits ∨ kind = .implements) :
    AllRegular .typescript makes owners free (baseFacts u type kind base) := by
  simp only [baseFacts]
  split
  · simp
  · rcases h with rfl | rfl <;> simp

@[simp] theorem regular_heritageFacts (type : String) (clause : Site) :
    AllRegular .typescript makes owners free (heritageFacts u type clause) := by
  simp only [heritageFacts]
  split_ifs
  · simp [regular_baseFacts]
  · simp [regular_baseFacts]
  · simp

/-- The parameters of a function that injects, if at all, into one of these owners. -/
theorem regular_parameterFacts (name : String) {injected : Option String} (p : Site)
    (h : ∀ owner, injected = some owner → owner ∈ owners) :
    AllRegular .typescript makes owners free (parameterFacts u name injected p) := by
  simp only [parameterFacts]
  split
  · simp
  · split
    · next owner target htarget => simp [h owner rfl, TypeRef.admits_outer htarget]
    · simp

theorem regular_signatureFacts (name : String) {injected : Option String} (function : Site)
    (h : ∀ owner, injected = some owner → owner ∈ owners) :
    AllRegular .typescript makes owners free (signatureFacts u name injected function) := by
  simp [signatureFacts, regular_parameterFacts u name _ h]

theorem deed_bodyFacts (member : String) (s : Site) :
    Deed .typescript makes actionNodes s (bodyFacts u member s) := by
  unfold bodyFacts
  split_ifs with hcall hnew hthrow hcatch
  · unfold callFacts
    split
    · exact .single (.inl rfl) (by simp [actionNodes, hcall])
    · exact .regular AllFacts.nil
  · exact .regular (by simp)
  · cases (s.childSite? "new_expression").bind (·.fieldText? u.text "constructor") with
    | none => exact .regular AllFacts.nil
    | some type => exact .single (.inr rfl) (by simp [actionNodes, hthrow])
  · exact .regular (by simp)
  · exact .regular AllFacts.nil

variable {u} {owner : String}

theorem plainName?_of_name {s : Site} {plain : String} (h : s.fieldText? u.text "name" = some plain) :
    plainName? u s = some plain := by
  rw [plainName?, h, Option.some_or]

/-- The members of a type are asked for in order. -/
theorem ordered_members (s : Site) :
    Site.Ordered (((s.field? "body").map (·.namedChildren)).getD []) :=
  .getD_field? _ fun _ hb => .namedChildren hb

theorem names_visitClass (s : Site) : (visitClass u owner s).Names (manner u) owner := by
  simp only [visitClass]
  split
  · exact .plain AllFacts.nil
  · next plain hplain =>
    apply Visit.Names.declare (plainName?_of_name hplain)
    · split <;> rfl
    · split <;> simp
    · split <;> rfl
    · simp
    · split <;> rfl
    · exact ordered_members s

theorem names_visitInterface (s : Site) : (visitInterface u owner s).Names (manner u) owner := by
  simp only [visitInterface]
  split
  · exact .plain AllFacts.nil
  · next plain hplain =>
    exact .declare (plainName?_of_name hplain) rfl (by simp) rfl (by simp) rfl (ordered_members s)

theorem names_visitMethod (s : Site) : (visitMethod u owner s).Names (manner u) owner := by
  simp only [visitMethod]
  split
  · exact .plain AllFacts.nil
  · next plain hplain =>
    apply Visit.Names.declare (plainName?_of_name hplain)
    · split_ifs <;> rfl
    · split_ifs <;> simp
    · split_ifs <;> rfl
    · refine AllFacts.append_iff.mpr ⟨by simp, regular_signatureFacts u _ s ?_⟩
      simp
    · by_cases hasync : (s.childSite? "async").isSome <;> by_cases hnew : plain = "constructor" <;>
        simp [hasync, hnew, Scope.owner]
    · exact .find?_toList _

theorem names_visitProperty (s : Site) : (visitProperty u owner s).Names (manner u) owner := by
  simp only [visitProperty]
  split
  · exact .plain AllFacts.nil
  · next plain hplain =>
    exact .declare hplain rfl (by simp) rfl (by simp) rfl (.find?_toList _)

theorem names_visitMember (s : Site) : (visitMember u owner s).Names (manner u) owner := by
  unfold visitMember
  split_ifs
  · exact names_visitMethod s
  · exact names_visitProperty s
  · exact .plain AllFacts.nil

/-- A function, which is declared by its own node or by that of a variable. -/
theorem names_function {s : Site} {plain : String} (function : Site) {below : List (Site.Below s)}
    (hplain : s.fieldText? u.text "name" = some plain) (hbelow : Site.Ordered below) :
    ({ results := functionFacts u owner (qualify u.path owner plain) s function
       next := below.map (.inside owner (some (qualify u.path owner plain)), ·) } :
      Visit Scope Fact s).Names (manner u) owner :=
  .declare (plainName?_of_name hplain) rfl (by simp) rfl
    (regular_signatureFacts u _ function (by simp)) rfl hbelow

theorem names_visitVariable (s : Site) : (visitVariable u owner s).Names (manner u) owner := by
  simp only [visitVariable]
  split
  · next plain value hplain hvalue =>
    split
    · exact names_function _ hplain (.field?_toList (List.mem_of_find?_eq_some hvalue) _)
    · exact .onward (.regular AllFacts.nil) rfl
  · exact .onward (.regular AllFacts.nil) rfl

theorem names_visitOuter (s : Site) : (visitOuter u owner s).Names (manner u) owner := by
  unfold visitOuter
  split_ifs
  · exact names_visitClass s
  · exact names_visitInterface s
  · unfold visitFunction
    split
    · exact .plain AllFacts.nil
    · next plain hplain => exact names_function s hplain (.find?_toList _)
  · exact names_visitVariable s
  · exact .onward (.regular AllFacts.nil) rfl

theorem names_visit (scope : Scope) (s : Site) : (visit u scope s).Names (manner u) scope.owner := by
  cases scope with
  | memberOf type => exact names_visitMember s
  | inside owner member =>
    simp only [visit]
    split
    · exact .plain (by simp [importFacts])
    · cases member with
      | none => exact names_visitOuter s
      | some name => exact .onward (deed_bodyFacts u name s) rfl

/-- The facts of a TypeScript source are in the order of ownership. -/
theorem owned_facts (path text : String) (tree : Tree) : Owned [path] (facts path text tree) :=
  owned_explore names_visit _ _ (List.mem_singleton.mpr rfl)

end TypeScript

/-! ## Python -/

namespace Python

def Scope.owner : Scope → String
  | inside owner _ => owner
  | itemOf type => type
  | statementOf owner _ => owner

def actionNodes : RelationKind → List String
  | .calls => ["call"]
  | .throws => ["raise_statement"]
  | _ => []

/-- What the declaration at a node calls itself: the name of a definition, or what an assignment in a
class assigns to. -/
def plainName? (u : SourceUnit) (s : Site) : Option String :=
  if s.kind = "expression_statement" then
    (s.namedSites.head?.bind (·.fieldSite? "left")).map (·.text u.text)
  else s.fieldText? u.text "name"

/-- A node calls a plain name that begins with a capital letter. -/
def Constructs (u : SourceUnit) (s : Site) (name : String) : Prop :=
  s.kind = "call" ∧ name.toList.head?.any Char.isUpper ∧
    (s.fieldSite? "function").map (calledName u) = some (some name, none)

@[simps] def manner (u : SourceUnit) : Manner Scope where
  types := .python
  path := u.path
  ownerOf := Scope.owner
  actionNodes := actionNodes
  plainName? := plainName? u
  makes := Constructs u

variable {makes : String → Prop} {owners : List String} {free : List RelationKind} (u : SourceUnit)
  (kind : ElementKind) (name : String) (s : Site)

@[simp] theorem kind_declaration : (declaration u kind name s).kind = kind := rfl

@[simp] theorem name_declaration : (declaration u kind name s).name = name := rfl

@[simp] theorem dependencies_declaration : (declaration u kind name s).dependencies = [] := rfl

@[simp] theorem regular_decoratorFacts (s : Site) (name : String) (h : .hasAttribute ∈ free) :
    AllRegular .python makes owners free (decoratorFacts u s name) := by
  simp [decoratorFacts, h]

@[simp] theorem regular_baseFacts (name : String) (base : Site) :
    AllRegular .python makes owners free (baseFacts u name base) := by
  simp only [baseFacts]
  split <;> simp

/-- The type that a parameter injects is admitted, also where it is the first argument. -/
theorem admits_of_injectedType? {type target : String} (h : injectedType? type = some target) :
    TypeSystem.python.Admits target := by
  rcases Option.or_eq_some_iff.mp h with houter | ⟨-, hargument⟩
  · exact TypeRef.admits_outer houter
  · exact TypeRef.admits_of_mem_arguments (List.mem_of_head? hargument)

/-- The parameters of a function that injects, if at all, into one of these owners. -/
theorem regular_parameterFacts (name : String) {injected : Option String} (p : Site)
    (h : ∀ owner, injected = some owner → owner ∈ owners) :
    AllRegular .python makes owners free (parameterFacts u name injected p) := by
  simp only [parameterFacts]
  split
  · simp
  · split
    · next owner target htarget => simp [h owner rfl, admits_of_injectedType? htarget]
    · simp

/-- A call is a call, or the use of what it constructs. -/
theorem deed_callFacts (member : String) {s : Site} (hcall : s.kind = "call") :
    Deed .python (Constructs u s) actionNodes s (callFacts u member s) := by
  unfold callFacts
  split
  · next callee receiver hcalled =>
    dsimp only
    split
    · next hconstructs =>
      obtain ⟨hupper, hnone⟩ := Bool.and_eq_true_iff.mp hconstructs
      rw [Option.isNone_iff_eq_none.mp hnone] at hcalled
      exact .regular (by simp [Constructs, hcall, hupper, hcalled])
    · exact .single (.inl rfl) (by simp [actionNodes, hcall])
  · exact .regular AllFacts.nil

theorem deed_bodyFacts (member : String) (s : Site) :
    Deed .python (Constructs u s) actionNodes s (bodyFacts u member s) := by
  unfold bodyFacts
  split_ifs with hcall hraise hexcept
  · exact deed_callFacts u member hcall
  · simp only [raiseFacts]
    generalize Option.filter isNameNode _ = raised
    cases raised with
    | none => exact .regular AllFacts.nil
    | some n => exact .single (.inr rfl) (by simp [actionNodes, hraise])
  · apply Deed.regular
    simp only [exceptFacts]
    split <;> simp
  · exact .regular AllFacts.nil

variable {u} {owner : String}

theorem plainName?_of_name {s : Site} {kind plain : String} (hkind : s.kind = kind)
    (hne : kind ≠ "expression_statement") (h : s.fieldText? u.text "name" = some plain) :
    plainName? u s = some plain := by
  rw [plainName?, if_neg (by rwa [hkind]), h]

theorem names_visitClass {s : Site} (hkind : s.kind = "class_definition") :
    (visitClass u owner s).Names (manner u) owner := by
  simp only [visitClass]
  split
  · exact .plain AllFacts.nil
  · next plain hplain =>
    exact .declare (plainName?_of_name hkind (by decide) hplain) (by simp) (by simp) (by simp)
      (by simp) (by simp [Scope.owner, ElementKind.IsType]) (.getD_field? _ fun _ hb => .namedChildren hb)

theorem names_visitFunction {s : Site} (hkind : s.kind = "function_definition") :
    (visitFunction u owner s).Names (manner u) owner := by
  simp only [visitFunction]
  split
  · exact .plain AllFacts.nil
  · next plain hplain =>
    apply Visit.Names.declare (plainName?_of_name hkind (by decide) hplain)
    · simp
    · simp only [Declaration.kind_addTags, kind_declaration]
      split <;> decide
    · simp
    · simp [regular_parameterFacts]
    · simp only [Declaration.kind_addTags, kind_declaration]
      split <;> rfl
    · exact .getD_field? _ fun _ hb => .children hb

theorem names_field {s : Site} (hkind : s.kind = "expression_statement") :
    (Visit.done (((s.namedSites.head?.filter (·.kind = "assignment")).map
      (fieldFacts u owner)).getD []) : Visit Scope Fact s).Names (manner u) owner := by
  cases hfirst : s.namedSites.head?.filter (·.kind = "assignment") with
  | none => exact .plain AllFacts.nil
  | some assignment =>
    simp only [Option.map_some, Option.getD_some, fieldFacts]
    split
    · exact .plain AllFacts.nil
    · next left hleft =>
      have hplain : plainName? u s = some (left.text u.text) := by
        rw [plainName?, if_pos hkind, (Option.filter_eq_some_iff.mp hfirst).1, Option.bind_some,
          (Option.filter_eq_some_iff.mp hleft).1, Option.map_some]
      change ({ results := _, next := ([] : List (Site.Below s)).map (Scope.itemOf owner, ·) } :
        Visit Scope Fact s).Names (manner u) owner
      exact .declare hplain rfl (by simp) rfl (by simp) rfl .nil

theorem names_visitInside (member : Option String) (s : Site) :
    (visitInside u owner member s).Names (manner u) owner := by
  unfold visitInside
  split
  · exact .plain (by simp [importFacts, importEdge])
  · split
    · exact .plain (by simp [importEdge])
    · cases member with
      | some name => exact .onward (deed_bodyFacts u name s) rfl
      | none =>
        dsimp only
        split_ifs with hclass hfunction
        · exact names_visitClass hclass
        · exact names_visitFunction hfunction
        · exact .onward (.regular AllFacts.nil) rfl

theorem names_visit (scope : Scope) (s : Site) : (visit u scope s).Names (manner u) scope.owner := by
  cases scope with
  | inside owner member => exact names_visitInside member s
  | itemOf type =>
    unfold visit visitItem
    dsimp only
    split_ifs with hstatement
    · exact names_field hstatement
    · exact .next (.regular AllFacts.nil) rfl (.find?_toList _)
    · exact names_visitInside none s
  | statementOf owner member =>
    unfold visit visitStatement
    dsimp only
    split_ifs
    · exact .next (.regular AllFacts.nil) rfl (.getD_field? _ fun _ hb => .children hb)
    · exact names_visitInside (some member) s

/-- The facts of a Python source are in the order of ownership. -/
theorem owned_facts (path text : String) (tree : Tree) : Owned [path] (facts path text tree) :=
  owned_explore names_visit _ _ (List.mem_singleton.mpr rfl)

end Python

end CodeSurvey
