import CodeSurvey.Proofs.Context.Climb
import CodeSurvey.Proofs.Route.Bridge
import CodeSurvey.Proofs.Route.Document

/-!
# Contexts that are resolved twice

A file that is routed has its context resolved, and a front end resolves once more what it is given.
The second time blanks are taken off the ends, so that a context stays the same just if it has no
blanks there or consists of blanks only. A context without blanks at its ends that is not empty is
that of every file of its directory, whichever way the file is surveyed.
-/

namespace CodeSurvey

theorem Text.trim_trim (s : String) : Text.trim (Text.trim s) = Text.trim s := by
  have h := @Text.trimWhere_append Text.isBlank "" (Text.trim s) (by simp)
    (fun c hc => Text.not_of_head?_trimWhere hc) (fun c hc => Text.not_of_getLast?_trimWhere hc)
  rwa [String.empty_append] at h

namespace Context

/-- A context that is not empty and has no blanks at its ends. -/
structure Plain (context : String) : Prop where
  trimmed : Text.trim context = context
  nonempty : context ≠ ""

variable {settings : ContextSettings} {fs : FileSystem} {path : String}

theorem plain_of_explicit? {given : Option String} {context : String}
    (h : explicit? given = some context) : Plain context := by
  obtain ⟨hmap, hnonempty⟩ := Option.filter_eq_some_iff.mp h
  obtain ⟨text, -, rfl⟩ := Option.map_eq_some_iff.mp hmap
  exact ⟨Text.trim_trim text, by simpa using hnonempty⟩

/-- A context is one that was given, without blanks at its ends, or else that of the path. -/
theorem resolve_cases (settings : ContextSettings) (fs : FileSystem) (path : String)
    (given : Option String) :
    Plain (resolve settings fs path given) ∨
      resolve settings fs path given = ofPath settings fs path := by
  unfold resolve
  cases h : explicit? given with
  | none => exact .inr rfl
  | some context => exact .inl (plain_of_explicit? h)

theorem resolve_blank {context : String} (h : Text.trim context = "") :
    resolve settings fs path (some context) = ofPath settings fs path := by
  have hnone : explicit? (some context) = none := by
    simp [explicit?, h]
  rw [resolve, hnone]

theorem Plain.resolve {context : String} (h : Plain context) :
    resolve settings fs path (some context) = context := by
  have hnonblank : Text.trim context ≠ "" := h.trimmed.symm ▸ h.nonempty
  rw [resolve_explicit settings fs path hnonblank, h.trimmed]

/-- Resolving a context again leaves it as it is just if it has no blanks at its ends or nothing but
blanks. -/
theorem resolve_resolve_eq_iff (given : Option String) :
    resolve settings fs path (some (resolve settings fs path given)) =
        resolve settings fs path given ↔
      Text.trim (resolve settings fs path given) = resolve settings fs path given ∨
        Text.trim (resolve settings fs path given) = "" := by
  rcases resolve_cases settings fs path given with hplain | hpath
  · exact iff_of_true hplain.resolve (.inl hplain.trimmed)
  · by_cases hblank : Text.trim (resolve settings fs path given) = ""
    · rw [resolve_blank hblank]
      exact iff_of_true hpath.symm (.inr hblank)
    · rw [resolve_explicit settings fs path hblank]
      exact (or_iff_left hblank).symm

/-! ## Files of one directory -/

/-- Two paths lead through the same directories, one at least, to a file each. -/
def SameDirectory (p q : String) : Prop :=
  ∃ rooted parts f g, Path.ofText p = ⟨rooted, parts ++ [f]⟩ ∧
    Path.ofText q = ⟨rooted, parts ++ [g]⟩ ∧ Path.isName f = true ∧ Path.isName g = true ∧
    ∃ directory ∈ parts, Path.isName directory = true

theorem stop?_congr {p q : Path} (h : ∀ height, 0 < height → p.ancestor height = q.ancestor height)
    {height : Nat} (hheight : 0 < height) (below : Option String) (directories : List String) :
    stop? settings fs p height below directories = stop? settings fs q height below directories := by
  induction directories generalizing height below with
  | nil => rfl
  | cons directory rest ih =>
    cases below <;> simp [stop?, h height hheight, ih height.succ_pos]

/-- Files of one directory have the same context by their paths. -/
theorem ofPath_eq_of_sameDirectory {p q : String} (h : SameDirectory p q) :
    ofPath settings fs p = ofPath settings fs q := by
  obtain ⟨rooted, parts, f, g, hp, hq, hf, hg, directory, hmem, hname⟩ := h
  have hnamesp : (Path.ofText p).names = parts.filter Path.isName ++ [f] := by
    simp [hp, Path.names, List.filter_append, hf]
  have hnamesq : (Path.ofText q).names = parts.filter Path.isName ++ [g] := by
    simp [hq, Path.names, List.filter_append, hg]
  have hne : parts.filter Path.isName ≠ [] :=
    List.ne_nil_of_mem (List.mem_filter.mpr ⟨hmem, hname⟩)
  have hancestor (height : Nat) (hheight : 0 < height) :
      (Path.ofText p).ancestor height = (Path.ofText q).ancestor height := by
    have hle : (parts ++ [f]).length - height ≤ parts.length := by
      rw [List.length_append, List.length_singleton]
      omega
    have hlength : (parts ++ [g]).length = (parts ++ [f]).length := by simp
    simp only [hp, hq, Path.ancestor, hlength, List.take_append_of_le_length hle]
  rw [ofPath_eq hnamesp, ofPath_eq hnamesq, stop?_congr hancestor Nat.one_pos,
    List.getLast?_eq_some_getLast hne]
  rfl

theorem resolve_eq_of_sameDirectory {p q : String} (h : SameDirectory p q) (given : Option String) :
    resolve settings fs p given = resolve settings fs q given := by
  rw [resolve, resolve, ofPath_eq_of_sameDirectory h]

end Context

/-! ## Routing -/

/-- All that a report holds carries a context. -/
structure Report.Carries (context : String) (r : Report) : Prop where
  elements : ∀ e ∈ r.elements, e.context = context
  relations : ∀ rel ∈ r.relations, rel.context = context
  findings : ∀ f ∈ r.findings, f.context = context

theorem Report.Stamped.carries {place : Place} {digest : String} {r : Report}
    (h : r.Stamped place digest) : r.Carries place.context := by
  obtain ⟨file, rest, -, -, -, -, -, hplaces⟩ := h.elements
  exact ⟨fun e he => (hplaces e he).2, h.relations, fun f hf => (h.findings f hf).2⟩

namespace Workspace

/-- A context without blanks at its ends reaches every front end as it is. -/
theorem surveyContext_of_plain (w : Workspace) {source : Source} {context : String}
    (hsource : source.context = some context) (h : Context.Plain context) :
    w.surveyContext source = context := by
  unfold surveyContext bridgedContext
  rw [hsource]
  cases w.dispatch source with
  | content | onDisk => exact h.resolve
  | unstructured => rfl

/-- A request that comes to a survey of a content: it is not called off, the content is at hand, and
what goes through the file system is read back as it was written. -/
structure Surveys (w : Workspace) (request : Request) (content : String) (tree : Option Tree) :
    Prop where
  live : request.cancelled = false
  found : w.contentOf request = .ok (content, tree)
  readsBack : ∀ f, w.dispatch (w.sourceOf request.path content request.context tree) = .onDisk f →
    w.ReadsBack request.path content

variable {settings : Settings} {files : FileSystem} {request : Request} {content : String}
  {tree : Option Tree}

theorem carries_surveyContext (h : (builtin settings files).Surveys request content tree) :
    ((builtin settings files).route request).Carries ((builtin settings files).surveyContext
      ((builtin settings files).sourceOf request.path content request.context tree)) := by
  rw [route_of_contentOf _ h.live h.found]
  exact (stamped_surveyContext settings files _ rfl h.readsBack).attachFindings.carries

theorem carries_of_plain (h : (builtin settings files).Surveys request content tree)
    (hplain : Context.Plain (Context.resolve settings.context files request.path request.context)) :
    ((builtin settings files).route request).Carries
      (Context.resolve settings.context files request.path request.context) := by
  have hcarries := carries_surveyContext h
  rwa [surveyContext_of_plain _ rfl hplain] at hcarries

/-- Resolving a context again leaves it as it is just if it has no blanks at its ends or nothing but
blanks. What is routed carries the context in which it is surveyed. So if the context of a file has no
blanks at its ends and is not empty, all that is found in the file and in any other file of its
directory carries this context, whichever way the two are surveyed. -/
theorem contexts_of_one_directory (settings : Settings) (files : FileSystem) :
    (∀ path given,
      Context.resolve settings.context files path
            (some (Context.resolve settings.context files path given)) =
          Context.resolve settings.context files path given ↔
        Text.trim (Context.resolve settings.context files path given) =
            Context.resolve settings.context files path given ∨
          Text.trim (Context.resolve settings.context files path given) = "") ∧
      (∀ request content tree, (builtin settings files).Surveys request content tree →
        ((builtin settings files).route request).Carries ((builtin settings files).surveyContext
          ((builtin settings files).sourceOf request.path content request.context tree))) ∧
      ∀ first content tree second content' tree',
        (builtin settings files).Surveys first content tree →
        (builtin settings files).Surveys second content' tree' →
        Context.SameDirectory first.path second.path → first.context = second.context →
        Context.Plain (Context.resolve settings.context files first.path first.context) →
        ((builtin settings files).route first).Carries
            (Context.resolve settings.context files first.path first.context) ∧
          ((builtin settings files).route second).Carries
            (Context.resolve settings.context files first.path first.context) := by
  refine ⟨fun path given => Context.resolve_resolve_eq_iff given,
    fun request content tree h => carries_surveyContext h, ?_⟩
  intro first content tree second content' tree' hfirst hsecond hsame hgiven hplain
  have hcontext : Context.resolve settings.context files first.path first.context =
      Context.resolve settings.context files second.path second.context := by
    rw [hgiven]
    exact Context.resolve_eq_of_sameDirectory hsame _
  refine ⟨carries_of_plain hfirst hplain, ?_⟩
  rw [hcontext] at hplain ⊢
  exact carries_of_plain hsecond hplain

/-- A project, which goes through the file system, and a file that is kept as it is. -/
theorem contexts_of_shop :
    Context.SameDirectory "shop/App.csproj" "shop/notes.txt" ∧
      ((builtin {} {}).route { path := "shop/App.csproj", content := some "<Project/>" }).Carries
        "shop" ∧
      ((builtin {} {}).route { path := "shop/notes.txt", content := some "x" }).Carries "shop" := by
  have hproject : (builtin {} {}).Surveys
      { path := "shop/App.csproj", content := some "<Project/>" } "<Project/>" none :=
    ⟨rfl, rfl, fun _ _ => by unfold ReadsBack; decide +kernel⟩
  have hnotes : (builtin {} {}).Surveys
      { path := "shop/notes.txt", content := some "x" } "x" none :=
    ⟨rfl, rfl, fun _ _ => by unfold ReadsBack; decide +kernel⟩
  have hsame : Context.SameDirectory "shop/App.csproj" "shop/notes.txt" :=
    ⟨false, ["shop"], "App.csproj", "notes.txt", by decide⟩
  have hresolve : Context.resolve {} {} "shop/App.csproj" none = "shop" := by decide +kernel
  obtain ⟨-, -, hcarries⟩ := contexts_of_one_directory {} {}
  have h := hcarries _ _ _ _ _ _ hproject hnotes hsame rfl ⟨by decide +kernel, by decide +kernel⟩
  exact ⟨hsame, hresolve ▸ h⟩

/-- Blanks at the ends of the name of a directory part the contexts of its files. -/
theorem contexts_part_at_blanks :
    Context.resolve {} {} " a /f.vb" (some (Context.resolve {} {} " a /f.vb" none)) ≠
        Context.resolve {} {} " a /f.vb" none ∧
      ((builtin {} {}).route { path := " a /f.vb", content := some "Class A\nEnd Class\n" }).elements.map
        (·.context) = ["a", "a"] ∧
      ((builtin {} {}).route { path := " a /f.txt", content := some "x" }).elements.map
        (·.context) = [" a "] := by
  decide +kernel

end Workspace

end CodeSurvey
