import CodeSurvey.Proofs.Detect.Findings
import CodeSurvey.Proofs.Project.Cited

/-!
# Packages without a version

The report on a project relates it to the packages it refers to, with their versions, and finds the
packages that are referred to without one. The two come about in different ways: the relations are
read off the elements and attributes of the file, but a package counts as versioned for the findings
as soon as its reference mentions a version, be it in the name of another attribute or in that of the
package. Main statement: the packages found are those without a mention, and they are those without
a version just if no reference mentions a version that it does not have.
-/

namespace CodeSurvey.Project

open Markup (Attribute Opening Passage Content localPart bracketed)
open Detect.Project (packageReference packageName unversionedPackage)

/-! ## Mentions of versions -/

/-- A reference mentions a version in its attributes or as an element of its content. -/
def Entry.Mentions (e : Entry) : Prop :=
  Text.Occurs "Version" e.texts.1 ∨ Text.Occurs "<Version" e.texts.2

instance (p s : String) : Decidable (Text.Occurs p s) :=
  decidable_of_iff _ (Text.contains_iff_occurs p s)

instance (e : Entry) : Decidable e.Mentions := inferInstanceAs (Decidable (_ ∨ _))

section Mentions

variable {o : Opening} {c : Content} {e : Entry}

theorem mentions_iff : e.Mentions ↔ "Version".toList <:+: e.opening.inside ∨
    "<Version".toList <:+: (e.inner.map Content.chars).getD [] := by
  have hinside : e.texts.1.toList = e.opening.inside := String.toList_ofList
  have hcontent : e.texts.2.toList = (e.inner.map Content.chars).getD [] := String.toList_ofList
  rw [Entry.Mentions, Text.Occurs, Text.Occurs, hinside, hcontent]

/-- An attribute that gives a version mentions it. -/
theorem infix_inside {w : String} (hw : "Version".toList <:+: w.toList)
    (h : (valueOf? o w).isSome) : "Version".toList <:+: o.inside := by
  rw [valueOf?, Option.isSome_map, List.find?_isSome] at h
  obtain ⟨a, ha, hname⟩ := h
  have hlocal : localPart a.name.text = w := of_decide_eq_true hname
  have hattribute : a.name.text.toList <:+: a.chars :=
    ⟨a.gap.chars, a.before.chars ++ '=' :: (a.after.chars ++ a.quoted), by
      simp [Attribute.chars, Attribute.key]⟩
  have hinside : a.chars <:+: o.inside :=
    (List.infix_of_mem_flatten (List.mem_map_of_mem ha)).trans (List.prefix_append _ _).isInfix
  rw [← hlocal] at hw
  exact hw.trans ((Markup.localPart_suffix _).isInfix.trans (hattribute.trans hinside))

theorem eq_true_of_versionIn? {versions : Bool} {text : Passage}
    (h : (versionIn? text versions).isSome) : versions = true := by
  cases versions with
  | true => rfl
  | false => simp [versionIn?] at h

/-- A content that gives a version has an element for it, unless it stands in one. -/
theorem infix_chars {versions : Bool} (hlegible : Legible c)
    (h : (lastVersion? versions c).isSome) : versions = true ∨ "<Version".toList <:+: c.chars := by
  induction c generalizing versions with
  | done text => exact .inl (eq_true_of_versionIn? h)
  | aside text note rest ih =>
    rw [lastVersion?, Option.isSome_or, Bool.or_eq_true] at h
    rcases h with hrest | htext
    · refine (ih hlegible.2 hrest).imp_right fun hinfix => hinfix.trans ?_
      exact ((List.suffix_append _ _).trans (List.suffix_append _ _)).isInfix
    · exact .inl (eq_true_of_versionIn? htext)
  | empty text opening rest ih =>
    rw [lastVersion?, Option.isSome_or, Bool.or_eq_true] at h
    rcases h with hrest | htext
    · refine (ih hlegible.2.2 hrest).imp_right fun hinfix => hinfix.trans ?_
      exact ((List.suffix_append _ _).trans (List.suffix_append _ _)).isInfix
    · exact .inl (eq_true_of_versionIn? htext)
  | element text opening inner tail rest ihInner ihRest =>
    obtain ⟨hclear, -, hinner, hrest⟩ := hlegible
    rw [lastVersion?, Option.isSome_or, Option.isSome_or, Bool.or_eq_true, Bool.or_eq_true] at h
    rcases h with hlast | hown | htext
    · refine (ihRest hrest hlast).imp_right fun hinfix => hinfix.trans ?_
      exact ⟨text.text.toList ++ (bracketed opening.chars ++ (inner.chars ++
        bracketed (Markup.closing opening.name tail))), [], by simp [Content.chars]⟩
    · refine .inr ?_
      rcases ihInner hinner hown with hname | hinfix
      · -- the element itself is one for versions, and is written so
        have hversion : opening.name.text = "Version" := by
          rw [← localPart_eq hclear]
          exact of_decide_eq_true hname
        exact ⟨text.text.toList, opening.inside ++ '>' :: (inner.chars ++
          (bracketed (Markup.closing opening.name tail) ++ rest.chars)), by
            simp [Content.chars, bracketed, Opening.chars, hversion]⟩
      · exact hinfix.trans ⟨text.text.toList ++ bracketed opening.chars,
          bracketed (Markup.closing opening.name tail) ++ rest.chars, by simp [Content.chars]⟩
    · exact .inl (eq_true_of_versionIn? htext)

/-- The references to packages can be read off a legible text. -/
theorem Legible.package (hlegible : Legible c) (hflat : Flat false c) (he : e ∈ packages c) :
    Citing e.opening ∧ ∀ inner ∈ e.inner, Legible inner := by
  induction c with
  | done text => cases he
  | aside text note rest ih => exact ih hlegible.2 hflat he
  | empty text opening rest ih =>
    obtain ⟨hclear, hciting, hrest⟩ := hlegible
    rw [packages_empty, List.mem_append, List.mem_ite_nil_right, List.mem_singleton] at he
    rcases he with ⟨hkind, rfl⟩ | he
    · exact ⟨hciting hkind, nofun⟩
    · exact ih hrest hflat.2 he
  | element text opening inner tail rest ihInner ihRest =>
    obtain ⟨hclear, hciting, hinner, hrest⟩ := hlegible
    rw [packages_element hflat, List.mem_append] at he
    rcases he with he | he
    · split at he
      · next hkind =>
        obtain rfl := List.mem_singleton.mp he
        refine ⟨(hciting hkind).1, ?_⟩
        rintro _ ⟨⟩
        exact hinner
      · exact ihInner hinner hflat.inner he
    · exact ihRest hrest hflat.2.2 he

/-- A reference with a version mentions it. -/
theorem mentions_of_version? (hinner : ∀ inner ∈ e.inner, Legible inner)
    (hversion : e.version?.isSome) : e.Mentions := by
  rw [mentions_iff]
  rw [Entry.version?, Option.isSome_or, Option.isSome_or, Bool.or_eq_true,
    Bool.or_eq_true] at hversion
  rcases hversion with hcontent | hattribute | hattribute
  · refine .inr ?_
    cases hc : e.inner with
    | none =>
      rw [hc] at hcontent
      cases hcontent
    | some c =>
      rw [hc] at hcontent
      exact (infix_chars (hinner c hc) hcontent).resolve_left Bool.false_ne_true
  · exact .inl (infix_inside (List.infix_refl _) hattribute)
  · exact .inl (infix_inside (by decide) hattribute)

end Mentions

/-! ## What is found -/

/-- The packages that are found without a version. -/
def namedPackages (r : Report) : List String :=
  (r.findingsNamed "Project_UnversionedPackage").filterMap fun f =>
    (f.metadata.get? "package").bind Json.text?

/-- The package that is captured of a reference, if there is one without a mention of a version. -/
def loose? (texts : String × String) : Option String :=
  if Text.contains "Version" texts.1 || Text.contains "<Version" texts.2 then none
  else (packageName.find? texts.1).map (·.group 1)

/-- What is found without asking for the guard. -/
theorem named_unguarded (scene : Scene) :
    ((unversionedPackage.unguarded scene).filterMap fun f =>
        (f.metadata.get? "package").bind Json.text?) =
      ((packageReference.findAll scene.source).map captured).filterMap loose? := by
  rw [Rule.unguarded, List.filterMap_map]
  change (unversionedPackage.scan scene).filterMap (fun hit =>
    ((Fields.ofList hit.metadata).get? "package").bind Json.text?) = _
  simp only [unversionedPackage, Scene.matchesOf, List.filterMap_filterMap, List.filterMap_filter,
    List.filterMap_map]
  refine List.filterMap_congr fun m _ => ?_
  have hloose : loose? (captured m) =
      if Text.contains "Version" (m.group 1) || Text.contains "<Version" (m.group 3) then none
      else (packageName.find? (m.group 1)).map (·.group 1) := rfl
  rw [Function.comp_apply, Function.comp_apply, hloose]
  by_cases h : (Text.contains "Version" (m.group 1) || Text.contains "<Version" (m.group 3)) = true
  · rw [if_pos h, if_neg (by rw [h]; decide)]
    rfl
  · rw [if_neg h, if_pos (by rw [Bool.eq_false_iff.mpr h]; rfl)]
    cases packageName.find? (m.group 1) <;> rfl

/-- Where the guard is not met there is no match. -/
theorem findAll_eq_nil {text : String} (h : ¬ Text.Occurs "<PackageReference" text) :
    packageReference.findAll text = [] := by
  have hrequires : packageReference.Requires ["<PackageReference"] := by decide +kernel
  exact hrequires.findAll_eq_nil (by simpa using h)

/-- The guard keeps nothing back. -/
theorem named_findings (scene : Scene) :
    ((unversionedPackage.findings scene).filterMap fun f =>
        (f.metadata.get? "package").bind Json.text?) =
      ((packageReference.findAll scene.source).map captured).filterMap loose? := by
  have hadmits : unversionedPackage.admits scene = true ↔
      Text.Occurs "<PackageReference" scene.source := by
    rw [← Text.contains_iff_occurs]
    simp [Rule.admits, unversionedPackage, Scene.mentionsAny, Scene.mentions]
  rw [Rule.findings]
  split
  · exact named_unguarded scene
  · next h =>
    rw [findAll_eq_nil (mt hadmits.mpr h)]
    rfl

/-- Among the findings in a project are those of the rule. -/
theorem findingsNamed_unversionedPackage {r : Report} {settings : DetectorSettings} {scene : Scene}
    (hr : r.findings = [])
    (henabled : isDisabled settings.disabled "Project_UnversionedPackage" = false) :
    (r.detect settings Detect.Project.bank scene).findingsNamed "Project_UnversionedPackage" =
      unversionedPackage.findings { scene with margin := settings.margin } := by
  have hnames : ([unversionedPackage, Detect.Project.legacyFramework].map (·.name)).Nodup := by
    decide
  exact Report.findingsNamed_detect hr hnames List.mem_cons_self henabled

/-- What is found in a legible project are the packages without a mention of a version. -/
theorem named_packages {d : Markup.Document} (hlegible : Legible d.content)
    (hflat : Flat false d.content) :
    ((packageReference.findAll d.text).map captured).filterMap loose? =
      ((packages d.content).filter fun e => ¬ e.Mentions).filterMap
        fun e => included? e.opening := by
  rw [captured_findAll hlegible hflat, List.filterMap_map, List.filterMap_filter]
  refine List.filterMap_congr fun e he => ?_
  have hmentions : (Text.contains "Version" e.texts.1 || Text.contains "<Version" e.texts.2) = true ↔
      e.Mentions := by
    rw [Bool.or_eq_true, Text.contains_iff_occurs, Text.contains_iff_occurs]
    rfl
  have hname : (packageName.find? e.texts.1).map (·.group 1) = included? e.opening :=
    (hlegible.package hflat he).1.group_find?
  rw [Function.comp_apply, loose?, hname]
  by_cases hmention : e.Mentions
  · rw [if_pos (hmentions.mpr hmention), if_neg (by simpa using hmention)]
  · rw [if_neg (mt hmentions.mp hmention), if_pos (by simpa using hmention)]

/-! ## What is related -/

/-- The packages that a project is related to without a version. -/
def unversionedImports (r : Report) : List String :=
  ((r.relationsOf .imports).filter fun rel =>
    (rel.properties.get? "reference_kind").bind Json.text? = some "package" ∧
      rel.properties.get? "version" = none).map (·.target)

/-- A reference to a package without a version. -/
def Reference.Unversioned (r : Reference) : Prop := r.kind = .package ∧ r.version = none

instance (r : Reference) : Decidable r.Unversioned := inferInstanceAs (Decidable (_ ∧ _))

/-- What is imported: a package by its name, a project by its path with slashes, an assembly by what
stands before the first comma. -/
def ReferenceKind.destination : ReferenceKind → String → String
  | package, included => included
  | project, included => included.map fun c => if c = '\\' then '/' else c
  | assembly, included => Text.trim (String.ofList (included.toList.takeWhile (· != ',')))

theorem slashed_eq_map (path : String) :
    slashed path = path.map fun c => if c = '\\' then '/' else c := by
  have hchars (cs : List Char) : Text.replaceChars ['\\'] ['/'] 0 cs =
      cs.map fun c => if c = '\\' then '/' else c := by
    induction cs with
    | nil => rfl
    | cons c cs ih =>
      by_cases hc : c = '\\'
      · simp [Text.replaceChars, hc, ih]
      · simp [Text.replaceChars, hc, Ne.symm hc, ih]
  have hne : "\\".isEmpty = false := by decide
  rw [← String.toList_inj, String.toList_map, ← hchars, slashed, Text.replace, hne,
    if_neg Bool.false_ne_true, String.toList_ofList]
  rfl

theorem Reference.target_eq (r : Reference) : r.target = r.kind.destination r.included := by
  obtain ⟨kind, included, version, line⟩ := r
  cases kind with
  | package => rfl
  | project => exact slashed_eq_map included
  | assembly => rfl

def Reference.edge (place : Place) (r : Reference) : Relation where
  source := place.path
  target := r.kind.destination r.included
  kind := .imports
  context := place.context
  properties := [("line_number", .nat r.line), ("reference_kind", .str r.kind.key)] ++
    r.version.toList.map fun version => ("version", .str version)

theorem Reference.relation?_fact (place : Place) (r : Reference) :
    (referenceFact place.path r).relation? place = some (r.edge place) := by
  have hkind : ¬ "reference_kind" < "line_number" := by decide
  have hversion : ¬ "version" < "line_number" ∧ ¬ "version" < "reference_kind" := by decide
  rw [edge, ← r.target_eq]
  cases hr : r.version <;> simp [referenceFact, Fact.relation?, hr, Place.relation, Relation.notes,
    Relation.note, Relation.atLine, Fields.set, hkind, hversion]

theorem relations_addProject {place : Place} {content : String} {p : Progress}
    (hread : readProject content = .ok p) (r : Report) :
    (addProject place content r).relations =
      r.relations ++ p.references.map (Reference.edge place) := by
  have hedge : Fact.relation? place ∘ referenceFact place.path = some ∘ Reference.edge place :=
    funext fun reference => reference.relation?_fact place
  rw [addProject, hread]
  dsimp only
  rw [Report.relations_recordAll, statements, List.filterMap_map, hedge, List.filterMap_eq_map]
  rfl

/-- The relation of a reference says whether it is one to a package without a version. -/
theorem Reference.unversioned_iff (place : Place) (r : Reference) :
    r.Unversioned ↔
      ((r.edge place).properties.get? "reference_kind").bind Json.text? = some "package" ∧
        (r.edge place).properties.get? "version" = none := by
  have hkey : r.kind.key = "package" ↔ r.kind = .package := by cases r.kind <;> decide
  rw [Reference.Unversioned, ← hkey]
  cases hversion : r.version <;> simp [edge, hversion, Fields.get?, List.lookup, Json.text?]

theorem unversionedImports_of_relations {place : Place} {r : Report} {references : List Reference}
    (h : r.relations = references.map (Reference.edge place)) :
    unversionedImports r = (references.filter (·.Unversioned)).map (·.included) := by
  have himports : r.relationsOf .imports = references.map (Reference.edge place) := by
    rw [Report.relationsOf, h, List.filter_eq_self]
    intro rel hrel
    obtain ⟨reference, -, rfl⟩ := List.mem_map.mp hrel
    rfl
  rw [unversionedImports, himports, List.filter_map, List.map_map]
  have hkept : references.filter ((fun rel : Relation => decide (
      (rel.properties.get? "reference_kind").bind Json.text? = some "package" ∧
        rel.properties.get? "version" = none)) ∘ Reference.edge place) =
      references.filter (·.Unversioned) :=
    List.filter_congr fun reference _ => decide_eq_decide.mpr (reference.unversioned_iff place).symm
  rw [hkept]
  refine List.map_congr_left fun reference hreference => ?_
  have hkind : reference.kind = .package := (of_decide_eq_true (List.mem_filter.mp hreference).2).1
  rw [Function.comp_apply, Reference.edge, hkind]
  rfl

/-- The references to packages without a version. -/
theorem included_unversioned (c : Content) :
    (((entriesOf c).filterMap Entry.reference?).filter (·.Unversioned)).map (·.included) =
      ((packages c).filter fun e => e.version? = none).filterMap fun e => included? e.opening := by
  rw [packages, List.filter_filter, List.filterMap_filter, List.filter_filterMap,
    List.map_filterMap]
  refine List.filterMap_congr fun e _ => ?_
  cases hincluded : included? e.opening with
  | none => simp [Entry.reference?, hincluded]
  | some included =>
    by_cases hloose : e.kind = .package ∧ e.version? = none
    · simp [Entry.reference?, hincluded, Reference.Unversioned, hloose]
    · have hnot : ¬ (e.version? = none ∧ e.kind = .package) := fun h => hloose h.symm
      simp [Entry.reference?, hincluded, Reference.Unversioned, hloose, hnot]

/-! ## The report on a project -/

section Survey

variable (settings : Settings) (fs : FileSystem) (path : String) (context : Option String)
  {d : Markup.Document}

theorem survey_eq (bank : Bank) {content : String} (hread : fs.readText path = .ok content)
    (hproject : isSolution path = false) :
    survey settings fs path context false bank =
      (addProject ⟨path, Context.resolve settings.context fs path context⟩ content
        (.opening ⟨path, Context.resolve settings.context fs path context⟩ content
          "MSBuild")).detect settings.detectors bank
        { filePath := path, context := Context.resolve settings.context fs path context,
          source := content } := by
  simp only [survey, hread, hproject, Bool.false_eq_true, if_false]

theorem survey_project {content : String} (hread : fs.readText path = .ok content)
    (hproject : isSolution path = false) :
    ∃ place : Place, survey settings fs path context false =
      (addProject place content (.opening place content "MSBuild")).detect settings.detectors
        Detect.Project.bank { filePath := path, context := place.context, source := content } :=
  ⟨_, survey_eq settings fs path context _ hread hproject⟩

/-- A project is related to its packages without a version. -/
theorem unversionedImports_survey (hread : fs.readText path = .ok d.text)
    (hproject : isSolution path = false) (hflat : Flat false d.content) :
    unversionedImports (survey settings fs path context false) =
      ((packages d.content).filter fun e => e.version? = none).filterMap
        fun e => included? e.opening := by
  obtain ⟨place, hsurvey⟩ := survey_project settings fs path context hread hproject
  obtain ⟨p, hp, hreferences⟩ := references_readProject d hflat
  have hrelations : (survey settings fs path context false).relations =
      p.references.map (Reference.edge place) := by
    rw [hsurvey, Report.relations_detect, relations_addProject hp]
    rfl
  rw [unversionedImports_of_relations hrelations, ← included_unversioned, ← hreferences,
    List.filter_map, List.map_map]
  rfl

/-- What is found in a legible project are its packages without a mention of a version. -/
theorem namedPackages_survey (hread : fs.readText path = .ok d.text)
    (hproject : isSolution path = false) (hflat : Flat false d.content)
    (hlegible : Legible d.content)
    (henabled : isDisabled settings.detectors.disabled "Project_UnversionedPackage" = false) :
    namedPackages (survey settings fs path context false) =
      ((packages d.content).filter fun e => ¬ e.Mentions).filterMap
        fun e => included? e.opening := by
  obtain ⟨place, hsurvey⟩ := survey_project settings fs path context hread hproject
  obtain ⟨p, hp, -⟩ := references_readProject d hflat
  have hnone : (addProject place d.text (.opening place d.text "MSBuild")).findings = [] := by
    rw [addProject, hp]
    exact (((Report.undetected_opening _ _ _).updateFile _).recordAll _ _).findings
  rw [namedPackages, hsurvey, findingsNamed_unversionedPackage hnone henabled, named_findings]
  exact named_packages hlegible hflat

end Survey

/-- The packages without a mention of a version are those without a version just if every reference
that mentions a version gives one. -/
theorem perm_unmentioned_iff {c : Content} (hlegible : Legible c) (hflat : Flat false c) :
    (((packages c).filter fun e => ¬ e.Mentions).filterMap fun e => included? e.opening).Perm
        (((packages c).filter fun e => e.version? = none).filterMap fun e => included? e.opening) ↔
      ∀ e ∈ packages c, e.Mentions → e.version?.isSome := by
  have hmentions : ∀ e ∈ packages c, e.version? ≠ none → e.Mentions := by
    intro e he hversion
    exact mentions_of_version? (hlegible.package hflat he).2 (Option.isSome_iff_ne_none.mpr hversion)
  have hincluded : ∀ e ∈ packages c, (included? e.opening).isSome := by
    intro e he
    obtain ⟨a, ha, hnames⟩ := (hlegible.package hflat he).1.1
    rw [included?_eq ha hnames]
    rfl
  -- the packages without a mention are found among those without a version
  have hamong : (packages c).filter (fun e => ¬ e.Mentions) =
      ((packages c).filter fun e => e.version? = none).filter fun e => ¬ e.Mentions := by
    rw [List.filter_filter]
    refine List.filter_congr fun e he => ?_
    have hnone : ¬ e.Mentions → e.version? = none := fun h => not_imp_comm.mp (hmentions e he) h
    by_cases h : e.Mentions
    · simp [h]
    · simp [h, hnone h]
  rw [hamong, perm_filterMap_filter_iff]
  constructor
  · intro h e he hmention
    rw [Option.isSome_iff_ne_none]
    intro hnone
    have hmem : e ∈ (packages c).filter fun e => e.version? = none :=
      List.mem_filter.mpr ⟨he, decide_eq_true hnone⟩
    exact of_decide_eq_true (h e hmem (hincluded e he)) hmention
  · intro h e he _
    obtain ⟨hmem, hnone⟩ := List.mem_filter.mp he
    refine decide_eq_true fun hmention => ?_
    have hsome := h e hmem hmention
    rw [of_decide_eq_true hnone] at hsome
    cases hsome

def asciiBytes (content : String) : List UInt8 := content.toList.map fun c => c.toNat.toUInt8

theorem decodeStrict?_asciiBytes {content : String}
    (h : content.toList.all (·.toNat < 128) = true) :
    Text.decodeStrict? (asciiBytes content) = some content := by
  have hdecode (cs : List Char) (hcs : ∀ c ∈ cs, c.toNat < 128) :
      Text.decode (cs.map fun c => c.toNat.toUInt8) = cs.map some := by
    induction cs with
    | nil => simp [Text.decode]
    | cons c cs ih =>
      obtain ⟨hc, hcs⟩ := List.forall_mem_cons.mp hcs
      have hbyte : c.toNat.toUInt8.toNat = c.toNat := by
        simp only [UInt8.toNat_ofNat']
        omega
      have hlow : c.toNat.toUInt8 < 0x80 := by
        rw [UInt8.lt_iff_toNat_lt, hbyte]
        exact hc
      rw [List.map_cons, Text.decode, if_pos hlow, ih hcs, hbyte, Char.ofNat_toNat, List.map_cons]
  have hall : ∀ c ∈ content.toList, c.toNat < 128 := fun c hc =>
    of_decide_eq_true (List.all_eq_true.mp h c hc)
  have hjoin (cs : List Char) : (cs.map some).mapM id = some cs := by
    induction cs with
    | nil => rfl
    | cons c cs ih => simp [List.mapM_cons, ih]
  rw [Text.decodeStrict?, asciiBytes, hdecode _ hall, hjoin, Option.map_some, String.ofList_toList]

/-- The files when a project is the only one. -/
def alone (content : String) : FileSystem :=
  FileSystem.addFile {} ⟨false, ["App.csproj"]⟩ (asciiBytes content) none

theorem readText_alone_ascii {content : String}
    (hascii : content.toList.all (·.toNat < 128) = true) :
    (alone content).readText "App.csproj" = .ok content := by
  have hread : (alone content).read "App.csproj" = .ok (asciiBytes content, none) := rfl
  simp only [FileSystem.readText, hread, bind, Except.bind]
  rw [decodeStrict?_asciiBytes hascii]

theorem readText_alone {d : Markup.Document} (hmarked : d.marked = false)
    (hascii : d.content.chars.all (·.toNat < 128) = true) :
    (alone d.text).readText "App.csproj" = .ok d.text := by
  have hchars : d.text.toList = d.content.chars := by simp [Markup.Document.text, hmarked]
  exact readText_alone_ascii (hchars ▸ hascii)

/-- A project around items. -/
def projectOf (items : Content) : Content :=
  .element {}
    { name := { text := "Project" }
      attributes := [{ name := { text := "Sdk" }, value := "Microsoft.NET.Sdk" }] }
    (.element { text := "\n  " } { name := { text := "ItemGroup" } } items {}
      (.done { text := "\n" }))
    {} (.done { text := "\n" })

/-- A project with a condition beside a package, a version that overrides another, one in an element
of its own, and a reference to a project. -/
def mixedProject : Markup.Document where
  content := projectOf
    (.empty { text := "\n    " }
      { name := { text := "PackageReference" }
        attributes := [
          { name := { text := "Condition" }, value := "'$(Debug)' == 'true'" },
          { name := { text := "Include" }, value := "Serilog" }]
        tail := { chars := [' '] } }
    (.empty { text := "\n    " }
      { name := { text := "PackageReference" }
        attributes := [
          { name := { text := "Update" }, value := "xunit" },
          { name := { text := "VersionOverride" }, quote := .single, value := "2.9.0" }] }
    (.element { text := "\n    " }
      { name := { text := "PackageReference" }
        attributes := [{ name := { text := "Include" }, value := "Dapper" }] }
      (.element {} { name := { text := "Version" } } (.done { text := "2.1" }) {} (.done {})) {}
    (.empty { text := "\n    " }
      { name := { text := "ProjectReference" }
        attributes := [{ name := { text := "Include" }, value := "..\\Core\\Core.csproj" }] }
    (.done { text := "\n  " })))))
  unmarked := by decide

/-- A project with a package whose name speaks of versions. -/
def versioningProject : Markup.Document where
  content := projectOf
    (.empty { text := "\n    " }
      { name := { text := "PackageReference" }
        attributes := [{ name := { text := "Include" }, value := "Asp.Versioning.Mvc" }]
        tail := { chars := [' '] } }
    (.done { text := "\n  " }))
  unmarked := by decide

end CodeSurvey.Project
