import CodeSurvey.Survey.Registry
import CodeSurvey.Proofs.Files.Extension
import CodeSurvey.Proofs.Lookup
import CodeSurvey.Proofs.Text.Sorted

/-!
# The registry as the record of its registrations

A registry is what a sequence of registrations has made of the empty one. For each extension only
two of them count: the latest that made a front end its first choice, of either kind, and the latest
that gave it a fallback. Dispatch, the extensions known and their listing follow from these two.
-/

namespace CodeSurvey

/-! ## Registrations -/

/-- One registration of a front end. -/
inductive Registration where
  | primary (f : Frontend)
  | fallback (f : Frontend)
  | onDisk (f : FileFrontend)

/-- Whether one of the extensions is, in lower case, the extension given. -/
def namesExtension (extensions : List String) (e : String) : Bool :=
  (extensions.map Text.lower).contains e

namespace Registration

def apply (r : Registry) : Registration → Registry
  | primary f => r.register f
  | fallback f => r.registerFallback f
  | onDisk f => r.registerOnDisk f

/-- The first choice that a registration makes for an extension. -/
def firstChoice? (e : String) : Registration → Option (Frontend ⊕ FileFrontend)
  | primary f => if namesExtension f.extensions e then some (.inl f) else none
  | fallback _ => none
  | onDisk f => if namesExtension f.extensions e then some (.inr f) else none

/-- The fallback that a registration makes for an extension. -/
def fallback? (e : String) : Registration → Option Frontend
  | fallback f => if namesExtension f.extensions e then some f else none
  | _ => none

end Registration

/-- How files are surveyed whose extension has this first choice and this fallback. -/
def Dispatch.ofChoice : Option (Frontend ⊕ FileFrontend) → Option Frontend → Dispatch
  | some (.inl f), fallback => .content f fallback
  | some (.inr f), _ => .onDisk f
  | none, some f => .content f none
  | none, none => .unstructured

namespace Registry

/-- The registry that registrations make of the empty one, in their order. -/
def ofHistory (history : List Registration) : Registry := history.foldl Registration.apply {}

def lastChoice (history : List Registration) (e : String) : Option (Frontend ⊕ FileFrontend) :=
  history.reverse.findSome? (Registration.firstChoice? e)

def lastFallback (history : List Registration) (e : String) : Option Frontend :=
  history.reverse.findSome? (Registration.fallback? e)

/-- The first choice for an extension that the two tables of first choices hold. -/
def choice? (r : Registry) (e : String) : Option (Frontend ⊕ FileFrontend) :=
  ((r.primary.find? e).map .inl).or ((r.onDisk.find? e).map .inr)

end Registry

/-! ## Tables -/

namespace Table

variable {α : Type}

theorem find?_erase (t : Table α) (key e : String) :
    (t.erase key).find? e = if e = key then none else t.find? e :=
  lookup_filter_ne key t.entries e

theorem find?_insert (t : Table α) (key : String) (value : α) (e : String) :
    (t.insert key value).find? e = if e = key then some value else t.find? e := by
  have herase := find?_erase t key e
  rw [find?] at herase
  rw [insert, find?, List.lookup_append, herase, lookup_cons_ite]
  by_cases he : e = key
  · rw [if_pos he, if_pos he, if_pos he, Option.none_or]
  · rw [if_neg he, if_neg he, if_neg he, List.lookup_nil, Option.or_none, find?]

theorem mem_extensions_iff (t : Table α) (e : String) :
    e ∈ t.extensions ↔ (t.find? e).isSome :=
  mem_keys_iff t.entries e

end Table

/-! ## What one registration changes -/

namespace Registry

variable (r : Registry) (e : String)

/-- A view of the registry that changes only at the extension of each step changes, over all steps,
only at the extensions named. -/
theorem foldl_view {β : Type} (view : Registry → Option β) (value : Option β)
    (step : Registry → String → Registry)
    (hstep : ∀ r x, view (step r x) = if e = Text.lower x then value else view r)
    (extensions : List String) :
    view (extensions.foldl step r) = if namesExtension extensions e then value else view r := by
  induction extensions generalizing r with
  | nil => rfl
  | cons x rest ih =>
    rw [List.foldl_cons, ih, hstep]
    by_cases hx : e = Text.lower x
    · simp [namesExtension, hx]
    · simp [namesExtension, hx]

theorem primary_register (f : Frontend) : (r.register f).primary.find? e =
    if namesExtension f.extensions e then some f else r.primary.find? e :=
  foldl_view r e (·.primary.find? e) (some f) _ (fun _ _ => Table.find?_insert ..) f.extensions

theorem onDisk_register (f : Frontend) : (r.register f).onDisk.find? e =
    if namesExtension f.extensions e then none else r.onDisk.find? e :=
  foldl_view r e (·.onDisk.find? e) none _ (fun _ _ => Table.find?_erase ..) f.extensions

/-- A part of the registry that no step changes is unchanged after all of them. -/
theorem foldl_keeps {β : Type} (view : Registry → β) (step : Registry → String → Registry)
    (hstep : ∀ r x, view (step r x) = view r) (extensions : List String) :
    view (extensions.foldl step r) = view r := by
  induction extensions generalizing r with
  | nil => rfl
  | cons x rest ih => rw [List.foldl_cons, ih, hstep]

theorem fallback_register (f : Frontend) : (r.register f).fallback = r.fallback := by
  refine foldl_keeps r (·.fallback) _ ?_ f.extensions
  intro r x
  rfl

theorem fallback_registerFallback (f : Frontend) : (r.registerFallback f).fallback.find? e =
    if namesExtension f.extensions e then some f else r.fallback.find? e :=
  foldl_view r e (·.fallback.find? e) (some f) _ (fun _ _ => Table.find?_insert ..) f.extensions

theorem primary_registerFallback (f : Frontend) : (r.registerFallback f).primary = r.primary := by
  refine foldl_keeps r (·.primary) _ ?_ f.extensions
  intro r x
  rfl

theorem onDisk_registerFallback (f : Frontend) : (r.registerFallback f).onDisk = r.onDisk := by
  refine foldl_keeps r (·.onDisk) _ ?_ f.extensions
  intro r x
  rfl

theorem primary_registerOnDisk (f : FileFrontend) : (r.registerOnDisk f).primary.find? e =
    if namesExtension f.extensions e then none else r.primary.find? e :=
  foldl_view r e (·.primary.find? e) none _ (fun _ _ => Table.find?_erase ..) f.extensions

theorem onDisk_registerOnDisk (f : FileFrontend) : (r.registerOnDisk f).onDisk.find? e =
    if namesExtension f.extensions e then some f else r.onDisk.find? e :=
  foldl_view r e (·.onDisk.find? e) (some f) _ (fun _ _ => Table.find?_insert ..) f.extensions

theorem fallback_registerOnDisk (f : FileFrontend) : (r.registerOnDisk f).fallback = r.fallback := by
  refine foldl_keeps r (·.fallback) _ ?_ f.extensions
  intro r x
  rfl

/-- A registration makes its first choice, or leaves the one there was. -/
theorem choice?_apply (g : Registration) :
    (Registration.apply r g).choice? e = (g.firstChoice? e).or (r.choice? e) := by
  cases g with
  | primary f =>
    simp only [choice?, Registration.apply, Registration.firstChoice?, primary_register,
      onDisk_register]
    split <;> rfl
  | fallback f =>
    simp only [choice?, Registration.apply, Registration.firstChoice?, primary_registerFallback,
      onDisk_registerFallback]
    rfl
  | onDisk f =>
    simp only [choice?, Registration.apply, Registration.firstChoice?, primary_registerOnDisk,
      onDisk_registerOnDisk]
    split <;> rfl

/-- A registration makes its fallback, or leaves the one there was. -/
theorem fallback_apply (g : Registration) :
    (Registration.apply r g).fallback.find? e = (g.fallback? e).or (r.fallback.find? e) := by
  cases g with
  | primary f =>
    simp only [Registration.apply, Registration.fallback?, fallback_register, Option.none_or]
  | fallback f =>
    simp only [Registration.apply, Registration.fallback?, fallback_registerFallback]
    split <;> rfl
  | onDisk f =>
    simp only [Registration.apply, Registration.fallback?, fallback_registerOnDisk,
      Option.none_or]

/-- No extension has first choices of both kinds. -/
def Exclusive (r : Registry) : Prop := ∀ e, r.primary.find? e = none ∨ r.onDisk.find? e = none

variable {r}

theorem Exclusive.apply (h : r.Exclusive) (g : Registration) :
    (Registration.apply r g).Exclusive := by
  intro e
  cases g with
  | primary f =>
    simp only [Registration.apply, primary_register, onDisk_register]
    split
    · exact Or.inr rfl
    · exact h e
  | fallback f =>
    simp only [Registration.apply, primary_registerFallback, onDisk_registerFallback]
    exact h e
  | onDisk f =>
    simp only [Registration.apply, primary_registerOnDisk, onDisk_registerOnDisk]
    split
    · exact Or.inl rfl
    · exact h e

/-! ## What all registrations leave -/

variable (history : List Registration) (g : Registration)

theorem ofHistory_append :
    ofHistory (history ++ [g]) = Registration.apply (ofHistory history) g := by
  rw [ofHistory, List.foldl_append]
  rfl

theorem exclusive_ofHistory : (ofHistory history).Exclusive := by
  induction history using List.reverseRecOn with
  | nil => exact fun e => Or.inl rfl
  | append_singleton history g ih =>
    rw [ofHistory_append]
    exact ih.apply g

theorem lastChoice_append :
    lastChoice (history ++ [g]) e = (g.firstChoice? e).or (lastChoice history e) := by
  simp [lastChoice, List.findSome?_cons]
  cases g.firstChoice? e <;> rfl

theorem lastFallback_append :
    lastFallback (history ++ [g]) e = (g.fallback? e).or (lastFallback history e) := by
  simp [lastFallback, List.findSome?_cons]
  cases g.fallback? e <;> rfl

theorem choice?_ofHistory : (ofHistory history).choice? e = lastChoice history e := by
  induction history using List.reverseRecOn with
  | nil => rfl
  | append_singleton history g ih =>
    rw [ofHistory_append, choice?_apply, ih, lastChoice_append]

theorem fallback_ofHistory :
    (ofHistory history).fallback.find? e = lastFallback history e := by
  induction history using List.reverseRecOn with
  | nil => rfl
  | append_singleton history g ih =>
    rw [ofHistory_append, fallback_apply, ih, lastFallback_append]

/-- Where only first choices for texts were registered, one of them is the latest. -/
theorem mem_of_lastChoice_primary {frontends : List Frontend} {c : Frontend ⊕ FileFrontend}
    (h : lastChoice (frontends.map .primary) e = some c) : ∃ f ∈ frontends, c = .inl f := by
  obtain ⟨g, hg, hchoice⟩ := List.exists_of_findSome?_eq_some h
  obtain ⟨f, hf, rfl⟩ := List.mem_map.mp (List.mem_reverse.mp hg)
  rw [Registration.firstChoice?] at hchoice
  split at hchoice
  · exact ⟨f, hf, (Option.some.inj hchoice).symm⟩
  · cases hchoice

theorem lastFallback_primary (frontends : List Frontend) :
    lastFallback (frontends.map .primary) e = none := by
  rw [lastFallback, List.findSome?_eq_none_iff]
  intro g hg
  obtain ⟨f, _, rfl⟩ := List.mem_map.mp (List.mem_reverse.mp hg)
  rfl

/-! ## What is asked of a registry -/

variable (r)

theorem dispatchExtension_eq :
    r.dispatchExtension e = .ofChoice (r.choice? e) (r.fallback.find? e) := by
  rw [dispatchExtension, choice?]
  cases r.primary.find? e with
  | some f => rfl
  | none =>
    cases r.onDisk.find? e with
    | some f => rfl
    | none => cases r.fallback.find? e <;> rfl

theorem dispatch_eq {path : String} (h : extension? path = some e) :
    r.dispatch path = r.dispatchExtension e := by
  rw [dispatch, h]

theorem dispatch_ofHistory {path : String} (h : extension? path = some e) :
    (ofHistory history).dispatch path =
      .ofChoice (lastChoice history e) (lastFallback history e) := by
  rw [dispatch_eq _ _ h, dispatchExtension_eq, choice?_ofHistory, fallback_ofHistory]

/-- An extension is known if anything but leaving the file as it is happens to its files. -/
theorem knows_iff :
    r.knows e = true ↔ r.dispatchExtension (Text.lower e) ≠ .unstructured := by
  rw [knows, dispatchExtension]
  cases r.primary.find? (Text.lower e) with
  | some f => simp
  | none =>
    cases r.onDisk.find? (Text.lower e) with
    | some f => simp
    | none => cases r.fallback.find? (Text.lower e) <;> simp

theorem knows_iff_mem : r.knows e = true ↔ Text.lower e ∈ r.extensions := by
  simp [knows, extensions, Table.mem_extensions_iff, or_assoc]

/-- The listing of extensions is in strictly ascending order. -/
theorem extensions_pairwise : r.extensions.Pairwise (· < ·) := by
  rw [extensions]
  convert Text.pairwise_sorted_eraseDups
    (r.primary.extensions ++ r.onDisk.extensions ++ r.fallback.extensions)

/-- Whatever was registered, and in whatever order: no extension has first choices of both kinds; how
a file is surveyed is decided by the latest first choice and the latest fallback for its extension;
an extension is known if files with it are not left as they are, and if it is in the listing of
extensions, which is strictly ascending; and the letter case of a path does not matter. -/
theorem ofHistory_lawful (history : List Registration) :
    (∀ e, ¬ (e ∈ (ofHistory history).primary.extensions ∧
      e ∈ (ofHistory history).onDisk.extensions)) ∧
    (∀ path e, extension? path = some e → (ofHistory history).dispatch path =
      .ofChoice (lastChoice history e) (lastFallback history e)) ∧
    (∀ stem e, stem ≠ "" → '/' ∉ stem.toList → e ≠ "" → '.' ∉ e.toList → '/' ∉ e.toList →
      ((ofHistory history).knows e = true ↔
        (ofHistory history).dispatch (stem ++ "." ++ e) ≠ .unstructured) ∧
      ((ofHistory history).knows e = true ↔ Text.lower e ∈ (ofHistory history).extensions)) ∧
    (ofHistory history).extensions.Pairwise (· < ·) ∧
    (∀ p q, Text.lowerAscii p = Text.lowerAscii q →
      (ofHistory history).dispatch p = (ofHistory history).dispatch q) := by
  refine ⟨?_, ?_, ?_, extensions_pairwise _, ?_⟩
  · rintro e ⟨hprimary, hdisk⟩
    rw [Table.mem_extensions_iff] at hprimary hdisk
    rcases exclusive_ofHistory history e with h | h
    · simp [h] at hprimary
    · simp [h] at hdisk
  · intro path e h
    exact dispatch_ofHistory e history h
  · intro stem e hstem hslash hne hdot hslash'
    have hext : extension? (stem ++ "." ++ e) = some (Text.lower e) := by
      rw [extension?, extensionAsWritten?_name hstem hne hslash hslash' hdot, Option.map_some]
    rw [dispatch_eq _ _ hext]
    exact ⟨knows_iff _ e, knows_iff_mem _ e⟩
  · intro p q h
    rw [dispatch, dispatch, extension?_congr h]

end Registry

/-! ## A registry in which one kind of front end took an extension from the other -/

/-- A front end that gives the same answer on every source. -/
def Frontend.answering (language : String) (extensions : List String)
    (answer : Except Crash Report) : Frontend where
  language := language
  extensions := extensions
  survey _ _ := answer

/-- A front end for files on disk that gives the same answer on every file. -/
def FileFrontend.answering (language : String) (extensions : List String)
    (answer : Except Crash Report) : FileFrontend where
  language := language
  extensions := extensions
  survey _ _ _ _ := answer

namespace Registry

/-- The reader of files on disk comes last, so that neither the first choice before it nor the
fallback counts, in whatever case the extension is written. -/
theorem dispatch_taken_over :
    let reader := FileFrontend.answering "Project" ["sln", "csproj"] (.ok {})
    let registry := ofHistory [
      .primary (.answering "Markup" ["XML", "CsProj"] (.ok {})),
      .fallback (.answering "Plain" ["csproj"] (.error .silent)), .onDisk reader]
    extension? "src/Shop.CsProj" = some "csproj" ∧
      registry.dispatch "src/Shop.CsProj" = .onDisk reader ∧
      (registry.knows "Xml" = true ↔ Text.lower "Xml" ∈ registry.extensions) ∧
      registry.dispatch "Shop.SLN" = registry.dispatch "shop.sln" := by
  intro reader registry
  obtain ⟨_, hdispatch, hknows, _, hcase⟩ := ofHistory_lawful [
    .primary (.answering "Markup" ["XML", "CsProj"] (.ok {})),
    .fallback (.answering "Plain" ["csproj"] (.error .silent)), .onDisk reader]
  have hext : extension? "src/Shop.CsProj" = some "csproj" := by decide +kernel
  refine ⟨hext, (hdispatch _ _ hext).trans rfl, ?_, hcase _ _ (by decide +kernel)⟩
  exact (hknows "data" "Xml" (by decide) (by decide) (by decide) (by decide) (by decide)).2

end Registry

end CodeSurvey
