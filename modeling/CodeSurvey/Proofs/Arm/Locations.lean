import CodeSurvey.Proofs.Arm.Resources
import CodeSurvey.Proofs.Code.QuotedNames

/-!
# The lines of resources

The resources of a template are visited in the order of the document that was read: under symbols in
the order of the symbols, and each before the resources within it. Their types are looked for in the
source from the section on, each behind the one found before. Where every type has one place in the
source, a resource gets the line of its type if the types of all resources visited before it stand
before it, and otherwise it gets the first line.
-/

namespace CodeSurvey.Arm

/-- The resources of a document in the order in which they are visited. -/
def visited (path : String) (document : Json) : List Resource :=
  ((document.field? "resources").map (resourcesOf path)).getD []

/-- Where the section of resources is taken to start. -/
def resourcesStart (source : String) : Nat :=
  (Text.find? (Code.quotedName "resources") source).getD 0

/-- A place behind a start and behind the places of all given resources from there on. -/
def Ahead (source : String) (start : Nat) (before : List Resource) (i : Nat) : Prop :=
  start ≤ i ∧ ∀ q ∈ before, ∀ j, Code.IsPlace source q.type j → start ≤ j →
    j + (Code.quotedName q.type).length ≤ i

/-- A place before a start or before the place of one of the given resources from there on. -/
def Passed (source : String) (start : Nat) (before : List Resource) (i : Nat) : Prop :=
  i < start ∨ ∃ q ∈ before, ∃ j, Code.IsPlace source q.type j ∧ start ≤ j ∧ i ≤ j

section Locate

variable {source : String} {start i j : Nat} {before : List Resource} {q : Resource}

theorem length_quotedName_pos (name : String) : 0 < (Code.quotedName name).length := by
  rw [← String.length_toList]
  exact List.length_pos_of_ne_nil (Code.quotedName_ne_nil name)

/-- Behind a resource that is found, what is ahead of both is ahead of the others. -/
theorem Ahead.behind (h : Ahead source start (q :: before) i) (hq : Code.IsPlace source q.type j)
    (hj : start ≤ j) : Ahead source (j + (Code.quotedName q.type).length) before i := by
  obtain ⟨hfirst, hothers⟩ := List.forall_mem_cons.mp h.2
  refine ⟨hfirst j hq hj, ?_⟩
  intro other hother k hk hstart
  exact hothers other hother k hk (hj.trans ((Nat.le_add_right _ _).trans hstart))

theorem Ahead.tail (h : Ahead source start (q :: before) i) : Ahead source start before i :=
  ⟨h.1, (List.forall_mem_cons.mp h.2).2⟩

/-- Behind a resource that is found, what was passed stays so. -/
theorem Passed.behind (h : Passed source start (q :: before) i)
    (hq : Code.IsPlace source q.type j) (hj : start ≤ j) :
    Passed source (j + (Code.quotedName q.type).length) before i := by
  have hpos := length_quotedName_pos q.type
  rcases h with hi | ⟨other, hother, k, hk, hstart, hle⟩
  · exact .inl (by omega)
  · rcases List.mem_cons.mp hother with rfl | hother
    · have hsame : k = j := (hq k).mp ((hk k).mpr rfl)
      exact .inl (by omega)
    · by_cases hbehind : j + (Code.quotedName q.type).length ≤ k
      · exact .inr ⟨other, hother, k, hk, hbehind, hle⟩
      · exact .inl (by omega)

/-- A resource that is not found passes nothing. -/
theorem Passed.tail (h : Passed source start (q :: before) i) (hq : Code.IsPlace source q.type j)
    (hj : j < start) : Passed source start before i := by
  rcases h with hi | ⟨other, hother, k, hk, hstart, hle⟩
  · exact .inl hi
  · rcases List.mem_cons.mp hother with rfl | hother
    · have hsame : k = j := (hq k).mp ((hk k).mpr rfl)
      exact absurd hstart (by omega)
    · exact .inr ⟨other, hother, k, hk, hstart, hle⟩

/-- The line of a resource among those visited before it and after it. -/
theorem exists_line_locate {r : Resource} {after : List Resource}
    (hbefore : ∀ q ∈ before, ∃ j, Code.IsPlace source q.type j)
    (hr : Code.IsPlace source r.type i) :
    ∃ line, (locate source start (before ++ r :: after))[before.length]? = some (line, r) ∧
      (Ahead source start before i → line = Text.lineOfIndex source i) ∧
      (Passed source start before i → line = 1) := by
  induction before generalizing start with
  | nil =>
    refine ⟨(Code.lineOfQuoted source r.type start).1, rfl, ?_, ?_⟩
    · intro hahead
      rw [hr.lineOfQuoted_of_le hahead.1]
    · rintro (hi | ⟨q, hq, -⟩)
      · rw [hr.lineOfQuoted_of_lt hi]
      · cases hq
  | cons q before ih =>
    obtain ⟨⟨j, hq⟩, hothers⟩ := List.forall_mem_cons.mp hbefore
    rw [List.cons_append, locate, List.length_cons, List.getElem?_cons_succ]
    -- the search goes on behind the type if it is found, and otherwise where it was
    rcases Nat.lt_or_ge j start with hj | hj
    · rw [hq.lineOfQuoted_of_lt hj]
      obtain ⟨line, hline, hahead, hpassed⟩ := @ih start hothers
      exact ⟨line, hline, fun h => hahead h.tail, fun h => hpassed (h.tail hq hj)⟩
    · rw [hq.lineOfQuoted_of_le hj]
      obtain ⟨line, hline, hahead, hpassed⟩ := @ih (j + (Code.quotedName q.type).length) hothers
      exact ⟨line, hline, fun h => hahead (h.behind hq hj), fun h => hpassed (h.behind hq hj)⟩

end Locate

theorem located_eq (source : String) (document : Json) (path : String) :
    located source document path =
      locate source (resourcesStart source) (visited path document) := by
  unfold located visited
  cases document.field? "resources" with
  | none | some => rfl

/-- On a template in which the type of every resource has one place in the source, the elements of
the resources are in the order of visiting. The line of one is that of its type if the place of the
type is ahead of the types visited before, and the first line if one of those has passed it. -/
theorem resource_lines (settings : Settings) (fs : FileSystem) {source : Source} {document : Json}
    (hlive : source.cancelled = false) (hparse : Json.parse? source.content = some document)
    (htemplate : isTemplate document = true)
    (honce : ∀ r ∈ visited source.path document, ∃ i, Code.IsPlace source.content r.type i)
    {before after : List Resource} {r : Resource}
    (hvisited : visited source.path document = before ++ r :: after) {i : Nat}
    (hplace : Code.IsPlace source.content r.type i) :
    ∃ e, ((survey settings fs source).elementsOf .type)[before.length]? = some e ∧
      e.name = r.name ∧
      (Ahead source.content (resourcesStart source.content) before i →
        e.lineNumber = Text.lineOfIndex source.content i) ∧
      (Passed source.content (resourcesStart source.content) before i → e.lineNumber = 1) := by
  rw [hvisited] at honce
  obtain ⟨line, hline, hahead, hpassed⟩ := @exists_line_locate source.content
    (resourcesStart source.content) i before r after
    (fun q hq => honce q (List.mem_append_left _ hq)) hplace
  rw [survey_eq_surveyTemplate settings fs hlive hparse htemplate,
    types_surveyTemplate settings fs source document, located_eq, hvisited, List.getElem?_map,
    hline]
  refine ⟨_, rfl, name_resourceDeclaration line r, ?_, ?_⟩
  · intro h
    exact (lineNumber_resourceDeclaration line r).trans (hahead h)
  · intro h
    exact (lineNumber_resourceDeclaration line r).trans (hpassed h)

/-- Two resources under symbols that are not in the order of the symbols. -/
def symbolTemplate : Source where
  path := "t.json"
  content := Text.joinLines [
    "\x7b\"$schema\": \"s\", \"resources\": \x7b",
    "  \"site\": \x7b\"type\": \"Web/site\"\x7d,",
    "  \"plan\": \x7b\"type\": \"Web/plan\"\x7d\x7d\x7d"]

def symbolDocument : Json :=
  .obj [("$schema", .str "s"), ("resources", .obj [
    ("plan", .obj [("type", .str "Web/plan")]), ("site", .obj [("type", .str "Web/site")])])]

def symbolResource (symbol type : String) : Resource :=
  ⟨"t.json", symbol, type, .obj [("type", .str type)]⟩

theorem parse?_symbolTemplate : Json.parse? symbolTemplate.content = some symbolDocument := by
  cbv

theorem visited_symbolTemplate : visited symbolTemplate.path symbolDocument =
    [symbolResource "plan" "Web/plan", symbolResource "site" "Web/site"] := by
  cbv

theorem isPlace_plan : Code.IsPlace symbolTemplate.content "Web/plan" 83 :=
  Code.isPlace_of_forall_lt (by decide +kernel) (by decide +kernel)

theorem isPlace_site : Code.IsPlace symbolTemplate.content "Web/site" 51 :=
  Code.isPlace_of_forall_lt (by decide +kernel) (by decide +kernel)

theorem exists_isPlace_symbolTemplate : ∀ r ∈ visited symbolTemplate.path symbolDocument,
    ∃ i, Code.IsPlace symbolTemplate.content r.type i := by
  rw [visited_symbolTemplate]
  exact List.forall_mem_cons.mpr ⟨⟨_, isPlace_plan⟩,
    List.forall_mem_singleton.mpr ⟨_, isPlace_site⟩⟩

/-- The plan is visited first and found on its line, behind which the site is not found. -/
theorem resource_lines_symbolTemplate :
    (∃ e, ((survey {} {} symbolTemplate).elementsOf .type)[0]? = some e ∧ e.name = "plan" ∧
      e.lineNumber = 3) ∧
    ∃ e, ((survey {} {} symbolTemplate).elementsOf .type)[1]? = some e ∧ e.name = "site" ∧
      e.lineNumber = 1 := by
  have htemplate : isTemplate symbolDocument = true := by decide +kernel
  have hstart : resourcesStart symbolTemplate.content = 17 := by decide +kernel
  constructor
  · obtain ⟨e, he, hname, hahead, -⟩ := @resource_lines {} {} symbolTemplate symbolDocument rfl
      parse?_symbolTemplate htemplate exists_isPlace_symbolTemplate [] _ _ visited_symbolTemplate _
      isPlace_plan
    refine ⟨e, he, hname, (hahead ⟨?_, List.forall_mem_nil _⟩).trans (by decide +kernel)⟩
    rw [hstart]
    decide
  · obtain ⟨e, he, hname, -, hpassed⟩ := @resource_lines {} {} symbolTemplate symbolDocument rfl
      parse?_symbolTemplate htemplate exists_isPlace_symbolTemplate
      [symbolResource "plan" "Web/plan"] _ _ visited_symbolTemplate _ isPlace_site
    refine ⟨e, he, hname, hpassed (.inr ⟨_, List.mem_singleton_self _, _, isPlace_plan, ?_, ?_⟩)⟩
    · rw [hstart]
      decide
    · decide

/-- Every type has one place, and the site is not put on the line of its type. -/
theorem site_line_symbolTemplate :
    Json.parse? symbolTemplate.content = some symbolDocument ∧ isTemplate symbolDocument = true ∧
      (∀ r ∈ visited symbolTemplate.path symbolDocument,
        ∃ i, Code.IsPlace symbolTemplate.content r.type i) ∧
      Code.IsPlace symbolTemplate.content "Web/site" 51 ∧
      Text.lineOfIndex symbolTemplate.content 51 = 2 ∧
      ((survey {} {} symbolTemplate).elementsOf .type).map (fun e => (e.name, e.lineNumber)) =
        [("plan", 3), ("site", 1)] := by
  have htemplate : isTemplate symbolDocument = true := by decide +kernel
  refine ⟨parse?_symbolTemplate, htemplate, exists_isPlace_symbolTemplate, isPlace_site,
    by decide +kernel, ?_⟩
  rw [survey_eq_surveyTemplate {} {} rfl parse?_symbolTemplate htemplate, types_surveyTemplate]
  decide +kernel

end CodeSurvey.Arm
