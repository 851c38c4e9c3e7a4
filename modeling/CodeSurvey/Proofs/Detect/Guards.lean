import CodeSurvey.Proofs.Detect.Disabling
import CodeSurvey.Proofs.Regex.Skeletons
import CodeSurvey.Proofs.Text.Pieces

/-!
# Guards that lose nothing

A rule first looks for its guards in the whole source, and where it finds none of them it does not
search. For the rules below this changes nothing: whatever they would find, one of the guards occurs
in the source. For a rule that searches with an expression it is enough that the expression requires
its guards. A rule that looks at the nodes of a tree or at blocks of lines takes what it tests out of
the source in pieces.
-/

namespace CodeSurvey

namespace Rule

variable {r : Rule}

/-- Where the rule has a hit, one of its guards occurs in the source. -/
def Guarded (r : Rule) : Prop :=
  ∀ scene, r.scan scene ≠ [] → ∃ g ∈ r.guards, Text.Occurs g scene.source

theorem admits_of_occurs {scene : Scene} {g : String} (hg : g ∈ r.guards)
    (h : Text.Occurs g scene.source) : r.admits scene = true := by
  have hmentions : scene.mentionsAny r.guards = true :=
    List.any_eq_true.mpr ⟨g, hg, (Text.contains_iff_occurs g scene.source).mpr h⟩
  rw [admits, hmentions, Bool.or_true]

theorem findings_of_occurs {scene : Scene} {g : String} (hg : g ∈ r.guards)
    (h : Text.Occurs g scene.source) : r.findings scene = r.unguarded scene := by
  rw [findings, if_pos (admits_of_occurs hg h)]

theorem findings_of_not_occurs {scene : Scene} (hne : r.guards ≠ [])
    (h : ∀ g ∈ r.guards, ¬ Text.Occurs g scene.source) : r.findings scene = [] := by
  have hmentions : scene.mentionsAny r.guards = false := by
    rw [Scene.mentionsAny, List.any_eq_false]
    intro g hg hcontains
    exact h g hg ((Text.contains_iff_occurs g scene.source).mp hcontains)
  have hadmits : r.admits scene = false := by
    rw [admits, hmentions, Bool.or_false, List.isEmpty_eq_false_iff]
    exact hne
  rw [findings, hadmits, if_neg Bool.false_ne_true]

def withoutGuards (r : Rule) : Rule := { r with guards := [] }

/-- Guards that occur wherever there is a hit can as well be left out. -/
theorem Guarded.findings_eq (h : r.Guarded) (scene : Scene) :
    r.findings scene = r.withoutGuards.findings scene := by
  change r.findings scene = r.unguarded scene
  by_cases hscan : r.scan scene = []
  · rw [findings, unguarded, hscan, List.map_nil, ite_self]
  · obtain ⟨g, hg, hoccurs⟩ := h scene hscan
    rw [findings, admits_of_occurs hg hoccurs, if_pos rfl]

/-- The rule has no hits where an expression has no matches. -/
def SearchesWith (r : Rule) (e : Regex) : Prop :=
  ∀ scene : Scene, scene.matchesOf e = [] → r.scan scene = []

theorem SearchesWith.guarded {e : Regex} (h : r.SearchesWith e) (he : e.Requires r.guards) :
    r.Guarded := by
  intro scene hscan
  by_contra hnone
  push Not at hnone
  have hmatches : scene.matchesOf e = [] := by
    rw [Scene.matchesOf, he.findAll_eq_nil hnone, List.map_nil]
  exact hscan (h scene hmatches)

end Rule

/-! ## The texts of nodes -/

section Nodes

variable (scene : Scene) (site : Site)

theorem Scene.occurs_textOf : Text.Occurs (scene.textOf site) scene.source :=
  Text.occurs_byteSlice _ _ _

theorem Site.occurs_of_fieldText? {site : Site} {source name text : String}
    (h : site.fieldText? source name = some text) : Text.Occurs text source := by
  obtain ⟨below, -, rfl⟩ := Option.map_eq_some_iff.mp h
  exact Text.occurs_byteSlice _ _ _

theorem Scene.occurs_fieldText (name : String) :
    Text.Occurs (scene.fieldText site name) scene.source := by
  rw [fieldText]
  cases h : site.fieldText? scene.source name with
  | none => exact List.nil_infix
  | some text => exact Site.occurs_of_fieldText? h

end Nodes

namespace Detect

/-! ## Rules that search with an expression -/

/-- Rules with the expressions that they search with. -/
def searches : List (Rule × Regex) := [
  (CSharp.dependencyRegistration, CSharp.registration), (CSharp.caching, CSharp.cacheUse),
  (CSharp.resilience, CSharp.policyUse),
  (Terraform.unpinnedModule, Terraform.blockHead "module"),
  (openIngress "TF_OpenIngressCidr", anySource), (openIngress "Bicep_OpenIngress", anySource),
  (Terraform.remoteBackend, Terraform.backendHead),
  (TypeScript.injectable, TypeScript.containerDecorator),
  (TypeScript.constructorInjection, TypeScript.constructorHead),
  (TypeScript.toolDefinition, TypeScript.toolForm), (Dart.statefulWidget, Dart.statefulHead),
  (Dart.providerInjection, Dart.providerUse), (Python.lruCache, Python.cacheDecorator),
  (Python.fastApiDepends, Python.dependsUse),
  (Project.unversionedPackage, Project.packageReference),
  (Project.legacyFramework, Project.targetFramework)]

theorem searchesWith_of_mem : ∀ search ∈ searches, search.1.SearchesWith search.2 := by
  -- every rule makes its hits of the matches alone
  have hmap {e : Regex} {g : Scene → Nat × Match → Hit} (scene : Scene)
      (h : scene.matchesOf e = []) : (scene.matchesOf e).map (g scene) = [] := by
    rw [h, List.map_nil]
  simp only [searches, List.forall_mem_cons]
  exact ⟨hmap, fun _ h => congrArg (List.map _) (congrArg (CSharp.firstOnLine 0) h), hmap,
    fun _ h => congrArg (List.filterMap _) h, hmap, hmap,
    fun _ h => congrArg (List.map _) (congrArg (List.filter _) h), hmap,
    fun _ h => congrArg (List.filterMap _) h, hmap, hmap, hmap, hmap, hmap,
    fun _ h => congrArg (List.filterMap _) (congrArg (List.filter _) h),
    fun _ h => congrArg (List.flatMap _) h, List.forall_mem_nil _⟩

theorem requires_of_mem_searches : ∀ search ∈ searches, search.2.Requires search.1.guards := by
  decide +kernel

theorem guarded_of_mem_searches {search : Rule × Regex} (h : search ∈ searches) :
    search.1.Guarded :=
  (searchesWith_of_mem search h).guarded (requires_of_mem_searches search h)

/-! ## Rules that look at nodes -/

theorem CSharp.occurs_of_mem_baseTypes {scene : Scene} {site : Site} {base : String}
    (h : base ∈ baseTypes scene site) : Text.Occurs base scene.source := by
  rw [baseTypes] at h
  cases hlist : (site.fieldSite? "bases").or (site.childSite? "base_list") with
  | none =>
    rw [hlist] at h
    cases h
  | some list =>
    rw [hlist] at h
    obtain ⟨n, -, rfl⟩ := List.mem_map.mp h
    exact ((Text.occurs_trimWhere _ _).trans (Text.occurs_beforeFirst _ _)).trans
      (scene.occurs_textOf n)

theorem CSharp.guarded_agentBaseClass : agentBaseClass.Guarded := by
  intro scene hscan
  obtain ⟨hit, hhit⟩ := List.exists_mem_of_ne_nil _ hscan
  obtain ⟨site, -, hfound⟩ := List.mem_filterMap.mp hhit
  obtain ⟨base, hbase, -⟩ := Option.map_eq_some_iff.mp hfound
  have hoccurs : Text.Occurs "Agent" base := by
    have hends := List.find?_some hbase
    rcases Bool.or_eq_true_iff.mp hends with hend | hend
    · exact Text.occurs_of_endsWith hend
    · have hagent : Text.Occurs "Agent" "AgentBase" := by decide
      exact hagent.trans (Text.occurs_of_endsWith hend)
  exact ⟨"Agent", List.mem_singleton_self _,
    hoccurs.trans (occurs_of_mem_baseTypes (List.mem_of_find?_eq_some hbase))⟩

theorem CSharp.occurs_attributeName (scene : Scene) (site : Site) :
    Text.Occurs (attributeName scene site) scene.source :=
  ((Text.occurs_withoutEnd _ _).trans (Text.occurs_afterLast _ _)).trans
    (scene.occurs_fieldText site "name")

theorem CSharp.guarded_dataAnnotations : dataAnnotations.Guarded := by
  intro scene hscan
  obtain ⟨hit, hhit⟩ := List.exists_mem_of_ne_nil _ hscan
  obtain ⟨site, hsite, -⟩ := List.mem_map.mp hhit
  have hname : attributeName scene site ∈ validationAttributes := by
    simpa using (List.mem_filter.mp hsite).2
  exact ⟨attributeName scene site, hname, occurs_attributeName scene site⟩

theorem Python.guarded_pydanticModel : pydanticModel.Guarded := by
  intro scene hscan
  obtain ⟨hit, hhit⟩ := List.exists_mem_of_ne_nil _ hscan
  obtain ⟨site, hsite, -⟩ := List.mem_map.mp hhit
  obtain ⟨bases, hbases, hcontains⟩ := (Option.any_eq_true _ _).mp (List.mem_filter.mp hsite).2
  have hoccurs : Text.Occurs "BaseModel" bases := (Text.contains_iff_occurs _ _).mp hcontains
  exact ⟨"BaseModel", List.mem_singleton_self _, hoccurs.trans (Site.occurs_of_fieldText? hbases)⟩

theorem Python.guarded_bareExcept : bareExcept.Guarded := by
  intro scene hscan
  obtain ⟨hit, hhit⟩ := List.exists_mem_of_ne_nil _ hscan
  obtain ⟨site, hsite, -⟩ := List.mem_map.mp hhit
  obtain ⟨rest, hrest, -⟩ := (Option.any_eq_true _ _).mp (List.mem_filter.mp hsite).2
  exact ⟨"except", List.mem_singleton_self _,
    (Text.occurs_of_afterStart? hrest).trans (scene.occurs_textOf site)⟩

/-! ## Rules that look at blocks -/

theorem Terraform.blockLines_subset (depth : Int) (lines : List String) :
    blockLines depth lines ⊆ lines := by
  induction lines generalizing depth with
  | nil => exact List.Subset.refl []
  | cons line lines ih =>
    rw [blockLines]
    split
    · exact List.cons_subset_cons line (List.nil_subset lines)
    · exact List.cons_subset_cons line (ih _)

/-- What occurs in a block and has no line feed in it occurs in the source. -/
theorem Terraform.occurs_of_occurs_blockText {scene : Scene} {line : Nat} {word : String}
    (hne : word ≠ "") (hword : '\n' ∉ word.toList)
    (h : Text.Occurs word (blockText scene line)) : Text.Occurs word scene.source := by
  obtain ⟨l, hl, hoccurs⟩ := Text.exists_line_of_occurs_joinLines hne hword h
  have hline : l ∈ scene.lines := List.mem_of_mem_drop (blockLines_subset _ _ hl)
  exact hoccurs.trans (Text.occurs_of_mem_lines hline)

theorem Terraform.guarded_resourceTags : resourceTags.Guarded := by
  intro scene hscan
  obtain ⟨hit, hhit⟩ := List.exists_mem_of_ne_nil _ hscan
  obtain ⟨⟨line, m⟩, htagged, -⟩ := List.mem_map.mp hhit
  have hmatch : (setting "tags").isMatch (blockText scene line) = true :=
    (List.mem_filter.mp htagged).2
  have hrequires : (setting "tags").Requires ["tags"] := by decide
  obtain ⟨word, hword, hoccurs⟩ := hrequires.occurs_of_isMatch hmatch
  obtain rfl := List.mem_singleton.mp hword
  exact ⟨"tags", List.mem_singleton_self _,
    occurs_of_occurs_blockText (by decide) (by decide) hoccurs⟩

/-! ## All together -/

/-- The rules whose guards lose nothing, in the order in which the surveys have them. -/
def guardedRules : List Rule := [
  CSharp.dependencyRegistration, CSharp.agentBaseClass, CSharp.caching, CSharp.resilience,
  CSharp.dataAnnotations, TypeScript.injectable, TypeScript.constructorInjection,
  TypeScript.toolDefinition, Python.pydanticModel, Python.lruCache, Python.bareExcept,
  Python.fastApiDepends, Dart.statefulWidget, Dart.providerInjection, Terraform.unpinnedModule,
  openIngress "TF_OpenIngressCidr", Terraform.remoteBackend, Terraform.resourceTags,
  openIngress "Bicep_OpenIngress", Project.unversionedPackage, Project.legacyFramework]

theorem guardedRules_subset :
    guardedRules ⊆ searches.map (·.1) ++ [
      CSharp.agentBaseClass, CSharp.dataAnnotations, Terraform.resourceTags, Python.pydanticModel,
      Python.bareExcept] := by
  simp only [guardedRules, searches, List.map_cons, List.map_nil, List.cons_append, List.nil_append,
    List.cons_subset, List.mem_cons, true_or, or_true, true_and, List.nil_subset]

theorem guarded_of_mem_guardedRules {rule : Rule} (h : rule ∈ guardedRules) : rule.Guarded := by
  rcases List.mem_append.mp (guardedRules_subset h) with hsearch | hpieces
  · obtain ⟨search, hmem, rfl⟩ := List.mem_map.mp hsearch
    exact guarded_of_mem_searches hmem
  · simp only [List.mem_cons, List.not_mem_nil, or_false] at hpieces
    rcases hpieces with rfl | rfl | rfl | rfl | rfl
    · exact CSharp.guarded_agentBaseClass
    · exact CSharp.guarded_dataAnnotations
    · exact Terraform.guarded_resourceTags
    · exact Python.guarded_pydanticModel
    · exact Python.guarded_bareExcept

def guardedNames : List String := [
  "CSharp_DependencyInjectionRegistration", "CSharp_AgentBaseClass", "CSharp_Caching",
  "CSharp_ResiliencePolicy", "CSharp_DataAnnotationsValidation", "TF_UnpinnedModuleSource",
  "TF_OpenIngressCidr", "Bicep_OpenIngress", "TF_RemoteBackend", "TF_ResourceTags",
  "TS_InjectableDecorator", "TS_ConstructorInjection", "TS_LlmToolDefinition",
  "Dart_StatefulWidget", "Dart_ProviderDependencyInjection", "Py_PydanticModel", "Py_LruCache",
  "Py_BareExcept", "Py_FastApiDepends", "Project_UnversionedPackage",
  "Project_LegacyTargetFramework"]

/-- The surveys have a detector of each of the names. Each of these detectors reports the same on
every scene when its guards are taken away, since wherever it would find something one of the guards
occurs in the source. -/
theorem guards_lose_nothing :
    (guardedRules.map (·.name)).Perm guardedNames ∧
      (inspectedSurveys.flatMap (·.bank.detectors)).filter (guardedNames.contains ·.name) =
        guardedRules.map Rule.detector ∧
      ∀ rule ∈ guardedRules, ∀ scene,
        rule.detector.inspect scene = rule.withoutGuards.detector.inspect scene ∧
          (rule.scan scene ≠ [] → ∃ g ∈ rule.guards, Text.Occurs g scene.source) := by
  refine ⟨by decide +kernel, rfl, fun rule hrule scene => ?_⟩
  have hguarded := guarded_of_mem_guardedRules hrule
  exact ⟨congrArg Except.ok (hguarded.findings_eq scene), hguarded scene⟩

/-- A resource with its tags on a line of their own. -/
def taggedBucket : Scene where
  filePath := "main.tf"
  context := "infra"
  source := "resource \"aws_s3_bucket\" \"logs\" \x7b\n  tags = \x7b\x7d\n\x7d\n"

/-- The tags of a resource are found in its block, and so the guard is there. -/
theorem guards_taggedBucket :
    (Terraform.resourceTags.scan taggedBucket).map (·.implementation) =
        ["aws_s3_bucket.logs carries resource tags"] ∧
      Terraform.resourceTags.detector.inspect taggedBucket =
        Terraform.resourceTags.withoutGuards.detector.inspect taggedBucket ∧
      ∃ g ∈ Terraform.resourceTags.guards, Text.Occurs g taggedBucket.source := by
  have hmem : Terraform.resourceTags ∈ guardedRules := by
    simp only [guardedRules, List.mem_cons, true_or, or_true]
  have hscan : (Terraform.resourceTags.scan taggedBucket).map (·.implementation) =
      ["aws_s3_bucket.logs carries resource tags"] := by
    decide +kernel
  obtain ⟨hinspect, hoccurs⟩ :=
    guards_lose_nothing.2.2 Terraform.resourceTags hmem taggedBucket
  refine ⟨hscan, hinspect, hoccurs ?_⟩
  intro hnil
  rw [hnil] at hscan
  cases hscan

end Detect

end CodeSurvey
