import CodeSurvey.Proofs.Regex.Separate
import CodeSurvey.Proofs.Syntax.Walkers
import CodeSurvey.Proofs.Text.Sorted

/-!
# References to addresses

A block is named by its address, and a text refers to a block by writing the address. The two are
spelled in different places: addresses are put together from the labels of a block, and references
are found by one expression with three alternatives. They agree: wherever an address stands in a
text by itself, it is found there as a whole, whatever else the text refers to before it.
-/

namespace CodeSurvey.Terraform

/-! ## Addresses -/

/-- What an identifier goes on with: basic letters, digits, low lines and hyphens. -/
def identifierClass : CharClass := .anyOf [.nameStart, .digit, .one '-']

/-- A basic letter or a low line, and then basic letters, digits, low lines and hyphens. -/
def IsIdentifier (name : String) : Prop :=
  ∃ c cs, name.toList = c :: cs ∧ CharClass.nameStart.has c = true ∧
    ∀ x ∈ cs, identifierClass.has x = true

/-- Small letters, digits and low lines, with a letter first and a low line inside. -/
def IsResourceType (type : String) : Prop :=
  ∃ c cs ds, type.toList = c :: (cs ++ '_' :: ds) ∧ (CharClass.range 'a' 'z').has c = true ∧
    (∀ x ∈ cs, (CharClass.anyOf [.range 'a' 'z', .digit]).has x = true) ∧ ds ≠ [] ∧
    ∀ x ∈ ds, (CharClass.anyOf [.range 'a' 'z', .digit, .one '_']).has x = true

/-- The blocks that can be referred to: variables, modules, resources and data sources. -/
inductive Header.Referable : Header → Prop
  | ofVariable {name : String} {more : List String} (hname : IsIdentifier name) :
      Referable ⟨"variable", name :: more⟩
  | ofModule {name : String} {more : List String} (hname : IsIdentifier name) :
      Referable ⟨"module", name :: more⟩
  | ofResource {type name : String} {more : List String} (htype : IsResourceType type)
      (hname : IsIdentifier name) : Referable ⟨"resource", type :: name :: more⟩
  | ofData {type name : String} {more : List String} (htype : IsIdentifier type)
      (hname : IsIdentifier name) : Referable ⟨"data", type :: name :: more⟩

/-- The addresses of what can be referred to: blocks and local values. -/
inductive IsAddress : String → Prop
  | block {h : Header} (hh : h.Referable) : IsAddress h.address
  | localValue {name : String} (hname : IsIdentifier name) : IsAddress ("local." ++ name)

/-- What addresses consist of: the characters of words, dots and hyphens. -/
def IsAddressChar (c : Char) : Prop := Text.isWord c = true ∨ c = '.' ∨ c = '-'

instance : DecidablePred IsAddressChar := fun c =>
  inferInstanceAs (Decidable (Text.isWord c = true ∨ c = '.' ∨ c = '-'))

/-- After an address there is nothing that would go on with it. -/
def Ends (after : List Char) : Prop := ∀ c ∈ after.head?, Text.isWord c = false ∧ c ≠ '-'

/-- An address stands in a text by itself: no character next to it could be a part of it. -/
def StandsIn (address : String) (text : List Char) : Prop :=
  ∃ before after, text = before ++ (address.toList ++ after) ∧
    (∀ c ∈ before.getLast?, ¬ IsAddressChar c) ∧ Ends after

theorem IsResourceType.mem_lowLine {type : String} (h : IsResourceType type) :
    '_' ∈ type.toList := by
  obtain ⟨c, cs, ds, htype, -⟩ := h
  simp [htype]

theorem IsResourceType.not_mem_dot {type : String} (h : IsResourceType type) :
    '.' ∉ type.toList := by
  obtain ⟨c, cs, ds, htype, hc, hcs, -, hds⟩ := h
  rw [htype]
  simp only [List.mem_cons, List.mem_append, not_or]
  refine ⟨?_, fun h => ?_, by decide, fun h => ?_⟩
  · rintro rfl
    exact absurd hc (by decide)
  · exact absurd (hcs _ h) (by decide)
  · exact absurd (hds _ h) (by decide)

theorem ends_dot (after : List Char) : Ends ('.' :: after) := by
  rintro c ⟨⟩
  decide

/-! ## References are addresses -/

section Search

open Regex

variable {bound : Nat} {s t : Cursor} {type name : String} {ys : List Char}

theorem has_namePart_iff {c : Char} :
    (CharClass.anyOf [.word, .one '-']).has c = true ↔ Text.isWord c = true ∨ c = '-' := by
  simp only [CharClass.has_anyOf, List.mem_cons, List.not_mem_nil, or_false, exists_eq_or_imp,
    exists_eq_left]
  exact or_congr Iff.rfl (beq_iff_eq.trans eq_comm)

theorem has_namePart_of_identifierClass {c : Char} (h : identifierClass.has c = true) :
    (CharClass.anyOf [.word, .one '-']).has c = true := by
  rw [has_namePart_iff]
  simp only [identifierClass, CharClass.has_anyOf, List.mem_cons, List.not_mem_nil, or_false,
    exists_eq_or_imp, exists_eq_left] at h
  rcases h with h | h | h
  · exact .inl (isWord_of_nameStart h)
  · exact .inl (isWord_of_digit h)
  · exact .inr (beq_iff_eq.mp h).symm

section Taken

variable (hname : IsIdentifier name) (hends : Ends ys) (hbound : s.rest.length ≤ bound)

include hname hends hbound

theorem takes_addressPart (hrest : s.rest = name.toList ++ ys) :
    Takes bound addressPart s (s.past name.toList) := by
  obtain ⟨c, cs, hchars, hc, hcs⟩ := hname
  rw [hchars] at hrest ⊢
  have hnext : (s.past [c]).rest = cs ++ ys := Cursor.rest_past hrest
  have hlength : cs.length ≤ bound := by
    rw [hrest, List.length_append, List.length_cons] at hbound
    omega
  change Takes bound addressPart s (s.past ([c] ++ cs))
  refine Takes.all_cons (Only.set hrest hc).takes (Takes.all_singleton
    (Takes.many_set hnext (fun x hx => has_namePart_of_identifierClass (hcs x hx)) ?_ hlength))
  intro y hy
  rw [← Bool.not_eq_true, has_namePart_iff, not_or, Bool.not_eq_true]
  exact hends y hy

/-- A name behind a dot. -/
theorem takes_dot_addressPart (hrest : s.rest = '.' :: (name.toList ++ ys)) :
    Takes bound (all [lit ".", addressPart]) s (s.past ('.' :: name.toList)) := by
  have hnext : (s.past ['.']).rest = name.toList ++ ys := Cursor.rest_past hrest
  change Takes bound _ s (s.past (['.'] ++ name.toList))
  refine Takes.all_cons (Only.lit hrest).takes (Takes.all_singleton
    (takes_addressPart hname hends ?_ hnext))
  exact (Cursor.length_rest_past_le s ['.']).trans hbound

/-- A value is found by the first alternative. -/
theorem takes_value {keyword : String} (hkeyword : keyword ∈ ["var", "local", "module"])
    (hrest : s.rest = keyword.toList ++ '.' :: (name.toList ++ ys)) :
    Takes bound (all [oneOf ["var", "local", "module"], lit ".", addressPart]) s
      (s.past (keyword.toList ++ '.' :: name.toList)) := by
  have hclash : ∀ w ∈ ["var", "local", "module"], ∀ u ∈ ["var", "local", "module"],
      u = w ∨ clash u.toList w.toList = true := by decide
  have hnext : (s.past keyword.toList).rest = '.' :: (name.toList ++ ys) := Cursor.rest_past hrest
  refine Takes.all_cons (Takes.oneOf hkeyword (hclash keyword hkeyword) hrest)
    (takes_dot_addressPart hname hends ?_ hnext)
  exact (Cursor.length_rest_past_le s _).trans hbound

/-- A data source is found by the second alternative. -/
theorem takes_data (htype : IsIdentifier type)
    (hrest : s.rest = "data.".toList ++ (type.toList ++ '.' :: (name.toList ++ ys))) :
    Takes bound (all [lit "data.", addressPart, lit ".", addressPart]) s
      (s.past ("data.".toList ++ (type.toList ++ '.' :: name.toList))) := by
  have htypes : (s.past "data.".toList).rest = type.toList ++ '.' :: (name.toList ++ ys) :=
    Cursor.rest_past hrest
  have hnext : ((s.past "data.".toList).past type.toList).rest = '.' :: (name.toList ++ ys) :=
    Cursor.rest_past htypes
  have hbound' := (Cursor.length_rest_past_le s "data.".toList).trans hbound
  refine Takes.all_cons (Only.lit hrest).takes (Takes.all_cons
    (takes_addressPart htype (ends_dot _) hbound' htypes)
    (takes_dot_addressPart hname hends ?_ hnext))
  exact (Cursor.length_rest_past_le _ _).trans hbound'

/-- A resource is found by the third alternative. -/
theorem takes_resource (htype : IsResourceType type)
    (hrest : s.rest = type.toList ++ '.' :: (name.toList ++ ys)) :
    Takes bound (all [
        set (.range 'a' 'z'), many (set (.anyOf [.range 'a' 'z', .digit])), lit "_",
        plus (set (.anyOf [.range 'a' 'z', .digit, .one '_'])), lit ".", addressPart]) s
      (s.past (type.toList ++ '.' :: name.toList)) := by
  obtain ⟨c, cs, ds, hchars, hc, hcs, hne, hds⟩ := htype
  have hsplit : type.toList ++ '.' :: name.toList =
      [c] ++ (cs ++ (['_'] ++ (ds ++ '.' :: name.toList))) := by
    rw [hchars]
    simp
  rw [hchars] at hrest
  have hletter : s.rest = c :: (cs ++ '_' :: (ds ++ '.' :: (name.toList ++ ys))) := by
    rw [hrest]
    simp
  have hfirst : (s.past [c]).rest = cs ++ '_' :: (ds ++ '.' :: (name.toList ++ ys)) :=
    Cursor.rest_past hletter
  have hline : ((s.past [c]).past cs).rest = '_' :: (ds ++ '.' :: (name.toList ++ ys)) :=
    Cursor.rest_past hfirst
  have hlast : (((s.past [c]).past cs).past ['_']).rest = ds ++ '.' :: (name.toList ++ ys) :=
    Cursor.rest_past hline
  have hdot : ((((s.past [c]).past cs).past ['_']).past ds).rest = '.' :: (name.toList ++ ys) :=
    Cursor.rest_past hlast
  have hlength := hbound
  simp only [hletter, List.length_append, List.length_cons] at hlength
  rw [hsplit]
  refine Takes.all_cons (Only.set hletter hc).takes (Takes.all_cons
    (Takes.many_set hfirst hcs ?_ (by omega)) (Takes.all_cons (Only.lit hline).takes (Takes.all_cons
    (Takes.plus_set hne hlast hds ?_ (by omega)) (takes_dot_addressPart hname hends ?_ hdot))))
  · rintro y ⟨⟩
    decide
  · rintro y ⟨⟩
    decide
  · simp only [hdot, List.length_append, List.length_cons]
    omega

end Taken

/-- Before its first dot a resource has a low line, and so it does not start with any of the words
of the other alternatives. -/
theorem IsResourceType.not_starts (htype : IsResourceType type) {word : List Char}
    (hline : '_' ∉ word) (zs : List Char) : ¬ word ++ ['.'] <+: type.toList ++ '.' :: zs := by
  rintro ⟨ws, hws⟩
  rw [List.append_assoc] at hws
  have hbegins : type.toList <+: word :=
    prefix_of_prefix_append htype.not_mem_dot ⟨'.' :: zs, hws.symm⟩
  exact hline (hbegins.subset htype.mem_lowLine)

theorem fails_value (h : ∀ word ∈ ["var", "local", "module"], ¬ word.toList ++ ['.'] <+: s.rest) :
    Fails bound (all [oneOf ["var", "local", "module"], lit ".", addressPart]) s := by
  apply Fails.of_not_reads
  intro t hread
  simp only [reads_all_cons] at hread
  obtain ⟨u, hword, v, hdot, -⟩ := hread
  obtain ⟨_, hform, hword⟩ := reads_any.mp hword
  obtain ⟨word, hmem, rfl⟩ := List.mem_map.mp hform
  obtain ⟨_, rfl, hrest, -⟩ := (spans_lit word).of_reads hword
  obtain ⟨_, rfl, hrest', -⟩ := (spans_lit ".").of_reads hdot
  refine h word hmem ⟨v.rest, ?_⟩
  rw [hrest, hrest', List.append_assoc]
  rfl

/-- The three forms of an address. -/
theorem IsAddress.forms {address : String} (h : IsAddress address) :
    (∃ keyword ∈ ["var", "local", "module"], ∃ name, IsIdentifier name ∧
      address.toList = keyword.toList ++ '.' :: name.toList) ∨
    (∃ type name, IsIdentifier type ∧ IsIdentifier name ∧
      address.toList = "data.".toList ++ (type.toList ++ '.' :: name.toList)) ∨
    ∃ type name, IsResourceType type ∧ IsIdentifier name ∧
      address.toList = type.toList ++ '.' :: name.toList := by
  cases h with
  | block hh =>
    cases hh with
    | @ofVariable name more hname =>
      exact .inl ⟨"var", by decide, name, hname, String.toList_append⟩
    | @ofModule name more hname =>
      exact .inl ⟨"module", by decide, name, hname, String.toList_append⟩
    | @ofResource type name more htype hname =>
      refine .inr (.inr ⟨type, name, htype, hname, ?_⟩)
      change (type ++ "." ++ name).toList = _
      simp
    | @ofData type name more htype hname =>
      refine .inr (.inl ⟨type, name, htype, hname, ?_⟩)
      change ("data." ++ type ++ "." ++ name).toList = _
      simp
  | @localValue name hname => exact .inl ⟨"local", by decide, name, hname, String.toList_append⟩

/-- A reference starts at the edge of a word. -/
theorem takes_reference {c : Char} {cs : List Char} (hrest : s.rest = c :: cs)
    (hc : Text.isWord c = true) (hstarts : ∀ x ∈ s.before, Text.isWord x = false)
    {alternatives : List Regex} (h : Takes bound (any alternatives) s t) :
    Takes bound (all [edge, any alternatives]) s t :=
  (Only.look ((holds_wordEdge_iff hrest hc).mpr hstarts)).takes.seq h.all_singleton

/-- An address is found as a whole where nothing before it belongs to a word. -/
theorem IsAddress.takes {address : String} (h : IsAddress address)
    (hrest : s.rest = address.toList ++ ys) (hstarts : ∀ c ∈ s.before, Text.isWord c = false)
    (hends : Ends ys) (hbound : s.rest.length ≤ bound) :
    Takes bound reference s (s.past address.toList) := by
  rcases h.forms with ⟨keyword, hkeyword, name, hname, hform⟩ | ⟨type, name, htype, hname, hform⟩ |
    ⟨type, name, htype, hname, hform⟩
  · rw [hform] at hrest ⊢
    obtain ⟨c, cs, hchars, hc⟩ : ∃ c cs, keyword.toList = c :: cs ∧ Text.isWord c = true := by
      simp only [List.mem_cons, List.not_mem_nil, or_false] at hkeyword
      rcases hkeyword with rfl | rfl | rfl
      · exact ⟨_, _, rfl, by decide⟩
      · exact ⟨_, _, rfl, by decide⟩
      · exact ⟨_, _, rfl, by decide⟩
    rw [List.append_assoc] at hrest
    refine takes_reference (by rw [hrest, hchars, List.cons_append]) hc hstarts (Takes.any_cons ?_)
    exact takes_value hname hends hbound hkeyword hrest
  · rw [hform] at hrest ⊢
    rw [List.append_assoc, List.append_assoc] at hrest
    refine takes_reference hrest (by decide) hstarts (Takes.any_tail (fails_value ?_)
      (Takes.any_cons (takes_data hname hends hbound htype hrest)))
    rw [hrest]
    have hclash : ∀ w ∈ ["var", "local", "module"],
        clash (w.toList ++ ['.']) "data.".toList = true := by decide
    exact fun w hw => not_prefix_of_clash (hclash w hw) _
  · rw [hform] at hrest ⊢
    rw [List.append_assoc] at hrest
    have hlines : ∀ w ∈ ["var", "local", "module"], '_' ∉ w.toList := by decide
    have hdata : '_' ∉ "data".toList := by decide
    obtain ⟨c, cs, ds, hchars, hc, -⟩ := id htype
    refine takes_reference (c := c) (by rw [hrest, hchars, List.cons_append])
      (isWord_of_range (by decide) hc) hstarts (Takes.any_tail (fails_value ?_)
        (Takes.any_tail ?_ (Takes.any_cons (takes_resource hname hends hbound htype hrest))))
    · rw [hrest]
      exact fun w hw => htype.not_starts (hlines w hw) _
    · refine Fails.seq (Fails.lit ?_) _
      rw [hrest]
      exact htype.not_starts hdata _

/-- References consist of characters of addresses. -/
theorem over_reference : reference.Over IsAddressChar := by
  have hletter : (set (.range 'a' 'z')).Over IsAddressChar :=
    fun c hc => .inl (isWord_of_range (by decide) hc)
  have hdigit : (set .digit).Over IsAddressChar := fun c hc => .inl (isWord_of_digit hc)
  have hline : (set (.one '_')).Over IsAddressChar := by
    intro c hc
    obtain rfl : '_' = c := beq_iff_eq.mp hc
    decide
  have hpart : addressPart.Over IsAddressChar := by
    simp only [addressPart, over_all, List.mem_cons, List.not_mem_nil, or_false, forall_eq_or_imp,
      forall_eq, over_many, Over, has_namePart_iff]
    exact ⟨fun c hc => .inl (isWord_of_nameStart hc), fun c hc => hc.imp_right .inr⟩
  have htexts : (["var", "local", "module", "data.", ".", "_"].all fun w =>
      w.toList.all fun c => decide (IsAddressChar c)) = true := by decide
  simp only [List.all_eq_true, decide_eq_true_eq] at htexts
  have htext {w : String} (hw : w ∈ ["var", "local", "module", "data.", ".", "_"]) :
      (lit w).Over IsAddressChar := over_lit.mpr (htexts w hw)
  have hkeyword : (oneOf ["var", "local", "module"]).Over IsAddressChar :=
    over_oneOf.mpr fun w hw => htexts w (List.mem_append_left ["data.", ".", "_"] hw)
  simp only [reference, over_all, over_any, over_many, over_plus, over_anyOf, List.mem_cons,
    List.not_mem_nil, or_false, forall_eq_or_imp, forall_eq]
  exact ⟨trivial, ⟨hkeyword, htext (by decide), hpart⟩,
    ⟨htext (by decide), hpart, htext (by decide), hpart⟩, hletter, ⟨hletter, hdigit⟩,
    htext (by decide), ⟨hletter, hdigit, hline⟩, htext (by decide), hpart⟩

/-- An address that stands in a text by itself is found. -/
theorem mem_mentioned {own address text : String} (h : IsAddress address) (hown : address ≠ own)
    (hstands : StandsIn address text.toList) : address ∈ mentioned own text := by
  obtain ⟨before, after, htext, hbefore, hends⟩ := hstands
  have hrest : ((Cursor.ofChars text.toList).past before).rest = address.toList ++ after :=
    Cursor.rest_past htext
  have hstarts : ∀ c ∈ ((Cursor.ofChars text.toList).past before).before,
      Text.isWord c = false := by
    rw [Cursor.before_ofChars_past]
    exact fun c hc => Bool.eq_false_iff.mpr fun hword => hbefore c hc (.inl hword)
  have htakes := h.takes (s := ((Cursor.ofChars text.toList).past before).withGroups []) hrest
    hstarts hends ((Cursor.length_rest_past_le _ before).trans String.length_toList.le)
  have hmem := mem_findAll_of_over (advances_of_leastLength (by decide)) over_reference htext
    hbefore (htakes.matchAt hrest)
  rw [mentioned, List.mem_mergeSort, List.mem_eraseDups, List.mem_filter]
  exact ⟨List.mem_map.mpr ⟨_, hmem, String.ofList_toList⟩, bne_iff_ne.mpr hown⟩

/-- What is found is not the text's own address. -/
theorem own_notMem_mentioned (own text : String) : own ∉ mentioned own text := by
  rw [mentioned, List.mem_mergeSort, List.mem_eraseDups]
  simp

end Search

/-! ## The texts that are searched -/

/-- A text that is searched for addresses: what it belongs to and where it starts. -/
structure Passage where
  owner : String
  text : String
  line : Nat
  deriving DecidableEq

/-- The blocks at the top level. -/
def blocks (tree : Tree) : List Site :=
  (((Site.root tree).childSite? "body").toList.flatMap Site.namedSites).filter (·.kind = "block")

/-- What a block declares: itself, or the local values in it. -/
def names (u : SourceUnit) (block : Site) (h : Header) : List String :=
  if h.type = "locals" then (attributes u block).map fun a => "local." ++ a.name else [h.address]

/-- A block from its first brace on. -/
def bodyText (u : SourceUnit) (block : Site) : String :=
  Text.drop ((Text.find? "\x7b" (block.text u.text)).getD 0) (block.text u.text)

/-- The texts of a block that are searched: the values of local values, and the bodies of resources,
data sources, modules, outputs and providers. -/
def passages (u : SourceUnit) (block : Site) (h : Header) : List Passage :=
  if h.type = "locals" then
    (attributes u block).map fun a => ⟨"local." ++ a.name, a.value, a.site.line⟩
  else if h.type ∈ ["resource", "data", "module", "output", "provider"] then
    [⟨h.address, bodyText u block, block.line⟩]
  else []

def allPassages (u : SourceUnit) (tree : Tree) : List Passage :=
  (blocks tree).flatMap fun block => (header? u block).toList.flatMap (passages u block)

/-! ## Elements and relations of use -/

section Survey

variable (u : SourceUnit)

theorem filter_uses_useFacts (own text : String) (line : Nat) :
    (useFacts own text line).filter (·.kind? = some .uses) = useFacts own text line := by
  rw [useFacts, filter_kind_map fun _ => rfl, if_pos rfl]

theorem filter_uses_callFacts (own : String) (block : Site) :
    (callFacts u own block).filter (·.kind? = some .uses) = [] := by
  rw [List.filter_eq_nil_iff]
  intro f hf
  obtain ⟨call, -, hcall⟩ := List.mem_filterMap.mp hf
  obtain ⟨name, -, rfl⟩ := Option.map_eq_some_iff.mp hcall
  simp [Fact.edge, Fact.kind?]

theorem filter_uses_attributeFacts (h : Header) (block : Site) :
    (attributeFacts u h block).filter (·.kind? = some .uses) = [] := by
  unfold attributeFacts
  split
  · rw [filter_kind_map fun _ => rfl, if_neg (by decide)]
  · rw [filter_kind_map fun _ => rfl, if_neg (by decide)]
  · rw [filter_kind_map fun _ => rfl, if_neg (by decide)]
  · rfl

theorem filter_uses_localFacts (block : Site) :
    (localFacts u block).filter (·.kind? = some .uses) =
      (attributes u block).flatMap fun a => useFacts ("local." ++ a.name) a.value a.site.line := by
  rw [localFacts, List.filter_flatMap]
  refine List.flatMap_congr fun a _ => ?_
  rw [List.filter_cons_of_neg (by simp [Fact.kind?])]
  exact filter_uses_useFacts _ _ _

theorem filter_uses_bodyFacts (h : Header) (block : Site) :
    (bodyFacts u h block).filter (·.kind? = some .uses) =
      if h.type ∈ ["resource", "data", "module", "output", "provider"] then
        useFacts h.address (bodyText u block) block.line else [] := by
  unfold bodyFacts
  simp only [List.contains_iff_mem, searchedTypes]
  split
  · rw [List.filter_append, filter_uses_useFacts, filter_uses_callFacts, List.append_nil]
    rfl
  · rfl

/-- The facts of use that a block states are those about its passages. -/
theorem filter_uses_blockFacts (block : Site) :
    (blockFacts u block).filter (·.kind? = some .uses) =
      ((header? u block).toList.flatMap (passages u block)).flatMap fun p =>
        useFacts p.owner p.text p.line := by
  unfold blockFacts
  cases header? u block with
  | none => rfl
  | some h =>
    rw [Option.toList_some, List.flatMap_singleton, passages]
    by_cases hlocals : h.type = "locals"
    · simp only [if_pos hlocals, List.flatMap_map]
      exact filter_uses_localFacts u block
    · simp only [if_neg hlocals]
      rw [List.cons_append, List.filter_cons_of_neg (by simp [Fact.kind?]), List.filter_append,
        filter_uses_attributeFacts, List.nil_append, filter_uses_bodyFacts]
      split
      · exact (List.flatMap_singleton _ _).symm
      · rfl

theorem filter_uses_valueFacts (s : Site) :
    (valueFacts u s).filter (·.kind? = some .uses) = [] := by
  rw [valueFacts, filter_kind_map fun _ => rfl, if_neg (by decide)]

/-- The facts of use are those about the passages, one after the other. -/
theorem filter_uses_facts (path text : String) (tree : Tree) :
    (facts path text tree).filter (·.kind? = some .uses) =
      (allPassages ⟨path, text⟩ tree).flatMap fun p => useFacts p.owner p.text p.line := by
  rw [facts, allPassages, blocks]
  generalize ((Site.root tree).childSite? "body").toList.flatMap Site.namedSites = sites
  induction sites with
  | nil => rfl
  | cons s sites ih =>
    rw [List.flatMap_cons, List.filter_append, ih]
    by_cases hblock : s.kind = "block"
    · rw [if_pos hblock, filter_uses_blockFacts, List.filter_cons_of_pos (by simpa using hblock),
        List.flatMap_cons, List.flatMap_append]
    · have hnone : (if s.kind = "attribute" && holdsValues path then valueFacts ⟨path, text⟩ s
          else []).filter (·.kind? = some .uses) = [] := by
        split
        · exact filter_uses_valueFacts _ s
        · rfl
      rw [if_neg hblock, hnone, List.filter_cons_of_neg (by simpa using hblock), List.nil_append]

/-- Attributes leave the name of a declaration. -/
theorem name_addAttributes (h : Header) (block : Site) (d : Declaration) :
    (addAttributes u h block d).name = d.name := by
  unfold addAttributes
  split
  · split <;> rfl
  · split <;> rfl
  · simp
  · rfl
  · rfl
  · simp
  · rfl

/-- A block states a declaration of each name. -/
theorem exists_declare_of_mem_names {block : Site} {h : Header} (hheader : header? u block = some h)
    {name : String} (hname : name ∈ names u block h) :
    ∃ d : Declaration, d.name = name ∧ .declare u.path d ∈ blockFacts u block := by
  rw [names] at hname
  simp only [blockFacts, hheader]
  split at hname
  · next hlocals =>
    obtain ⟨a, ha, rfl⟩ := List.mem_map.mp hname
    rw [if_pos hlocals]
    exact ⟨_, rfl, List.mem_flatMap.mpr ⟨a, ha, List.mem_cons_self⟩⟩
  · next hlocals =>
    obtain rfl := List.mem_singleton.mp hname
    rw [if_neg hlocals]
    exact ⟨_, name_addAttributes u h block _, List.mem_cons_self⟩

/-- What is searched belongs to something that the block declares. -/
theorem owner_mem_names {block : Site} {h : Header} {p : Passage} (hp : p ∈ passages u block h) :
    p.owner ∈ names u block h := by
  unfold passages at hp
  unfold names
  split at hp
  · next hlocals =>
    obtain ⟨a, ha, rfl⟩ := List.mem_map.mp hp
    rw [if_pos hlocals]
    exact List.mem_map.mpr ⟨a, ha, rfl⟩
  · next hlocals =>
    rw [if_neg hlocals]
    split at hp
    · obtain rfl := List.mem_singleton.mp hp
      exact List.mem_singleton_self _
    · cases hp

variable (settings : Settings) (fs : FileSystem) {source : Source} (bank : Bank) {tree : Tree}

section Live

variable (hlive : source.cancelled = false) (htree : source.tree = some tree)

include hlive htree

theorem relations_survey :
    (survey settings fs source bank).relations =
      statements (source.place settings fs) (facts source.path source.content tree) := by
  simp only [survey, hlive, htree]
  refine (Report.relations_detect _ _ _ _).trans ((Report.relations_recordAll _ _ _).trans ?_)
  cases tree.firstErrorLine? <;> rfl

/-- Everything that is declared is in the report. -/
theorem exists_element_of_declare {owner : String} {d : Declaration}
    (hd : .declare owner d ∈ facts source.path source.content tree) :
    ∃ e ∈ (survey settings fs source bank).elements, e.name = d.name := by
  have hmark : (d.imprint, source.place settings fs) ∈
      (survey settings fs source bank).elements.map Element.mark := by
    simp only [survey, hlive, htree]
    rw [if_neg Bool.false_ne_true, Report.elements_detect]
    change _ ∈ (Report.recordAll _ _ _).marks
    rw [Report.marks_recordAll]
    exact List.mem_append_right _ (List.mem_flatMap.mpr ⟨_, hd, List.mem_singleton_self _⟩)
  obtain ⟨e, he, heq⟩ := List.mem_map.mp hmark
  exact ⟨e, he, congrArg (·.1.name) heq⟩

theorem exists_element_of_mem_names {block : Site} (hblock : block ∈ blocks tree) {h : Header}
    (hheader : header? source.unit block = some h) {name : String}
    (hname : name ∈ names source.unit block h) :
    ∃ e ∈ (survey settings fs source bank).elements, e.name = name := by
  obtain ⟨d, rfl, hd⟩ := exists_declare_of_mem_names source.unit hheader hname
  obtain ⟨hsite, hkind⟩ := List.mem_filter.mp hblock
  have hfact : .declare source.path d ∈ facts source.path source.content tree := by
    refine List.mem_flatMap.mpr ⟨block, hsite, ?_⟩
    rw [if_pos (of_decide_eq_true hkind)]
    exact hd
  exact exists_element_of_declare settings fs bank hlive htree hfact

/-- The relations of use are those of the passages, one after the other. -/
theorem relationsOf_uses :
    (survey settings fs source bank).relationsOf .uses =
      (allPassages source.unit tree).flatMap fun p => (mentioned p.owner p.text).map fun target =>
        (source.place settings fs).relation p.owner target .uses p.line [] := by
  rw [Report.relationsOf, relations_survey settings fs bank hlive htree, filter_statements,
    filter_uses_facts]
  refine List.filterMap_flatMap.trans (List.flatMap_congr fun p _ => ?_)
  exact statements_map_edge _ _ _ id _ fun _ => p.line

end Live

/-- References reach the addresses of blocks and local values. Every block and every local value is
an element under its address. The relations of use are stated for one searched text after the other;
those of a text have different targets, and none of them is its owner. And wherever an address other
than the owner's stands in the text by itself, the owner uses it. -/
theorem references_reach_addresses (hlive : source.cancelled = false)
    (htree : source.tree = some tree) :
    (∀ block ∈ blocks tree, ∀ h, header? source.unit block = some h →
      ∀ name ∈ names source.unit block h,
        ∃ e ∈ (survey settings fs source bank).elements, e.name = name) ∧
    (survey settings fs source bank).relationsOf .uses =
      (allPassages source.unit tree).flatMap (fun p => (mentioned p.owner p.text).map fun target =>
        (source.place settings fs).relation p.owner target .uses p.line []) ∧
    ∀ p ∈ allPassages source.unit tree,
      (∃ e ∈ (survey settings fs source bank).elements, e.name = p.owner) ∧
      (mentioned p.owner p.text).Pairwise (· < ·) ∧ p.owner ∉ mentioned p.owner p.text ∧
      ∀ address, IsAddress address → address ≠ p.owner → StandsIn address p.text.toList →
        (survey settings fs source bank).relates p.owner address .uses = true := by
  have hrelations := relationsOf_uses settings fs bank hlive htree
  refine ⟨?_, hrelations, ?_⟩
  · intro block hblock h hheader name hname
    exact exists_element_of_mem_names settings fs bank hlive htree hblock hheader hname
  · intro p hp
    refine ⟨?_, Text.pairwise_sorted_eraseDups _, own_notMem_mentioned _ _, ?_⟩
    · obtain ⟨block, hblock, hpassage⟩ := List.mem_flatMap.mp hp
      obtain ⟨h, hheader, hpassage⟩ := List.mem_flatMap.mp hpassage
      exact exists_element_of_mem_names settings fs bank hlive htree hblock
        (Option.mem_toList.mp hheader) (owner_mem_names source.unit hpassage)
    · intro address haddress hown hstands
      have hmem : (source.place settings fs).relation p.owner address .uses p.line [] ∈
          (survey settings fs source bank).relationsOf .uses := by
        rw [hrelations]
        exact List.mem_flatMap.mpr ⟨p, hp, List.mem_map.mpr
          ⟨address, mem_mentioned haddress hown hstands, rfl⟩⟩
      obtain ⟨hrel, hkind⟩ := List.mem_filter.mp hmem
      refine List.any_eq_true.mpr ⟨_, hrel, ?_⟩
      simp only [hkind, source_relation, target_relation, decide_true, Bool.and_self]

end Survey

def outputTree : Tree :=
  .node ⟨"config_file", "", true, false, false, false, 0, 50, 0, 3⟩ [
    .node ⟨"body", "", true, false, false, false, 0, 50, 0, 3⟩ [
      .node ⟨"block", "", true, false, false, false, 0, 17, 0, 0⟩ [
        .node ⟨"identifier", "", true, false, false, false, 0, 8, 0, 0⟩ [],
        .node ⟨"string_lit", "", true, false, false, false, 9, 14, 0, 0⟩ [],
        .node ⟨"block_start", "", true, false, false, false, 15, 16, 0, 0⟩ [],
        .node ⟨"block_end", "", true, false, false, false, 16, 17, 0, 0⟩ []],
      .node ⟨"block", "", true, false, false, false, 18, 50, 1, 3⟩ [
        .node ⟨"identifier", "", true, false, false, false, 18, 24, 1, 1⟩ [],
        .node ⟨"string_lit", "", true, false, false, false, 25, 28, 1, 1⟩ [],
        .node ⟨"block_start", "", true, false, false, false, 29, 30, 1, 1⟩ [],
        .node ⟨"body", "", true, false, false, false, 33, 48, 2, 2⟩ [
          .node ⟨"attribute", "", true, false, false, false, 33, 48, 2, 2⟩ [
            .node ⟨"identifier", "", true, false, false, false, 33, 38, 2, 2⟩ [],
            .node ⟨"expression", "", true, false, false, false, 41, 48, 2, 2⟩ []]],
        .node ⟨"block_end", "", true, false, false, false, 49, 50, 3, 3⟩ []]]]

/-- A variable whose name holds a hyphen, and an output of its value. -/
def outputSource : Source where
  path := "main.tf"
  content := Text.joinLines
    ["variable \"a-b\" \x7b\x7d", "output \"o\" \x7b", "  value = var.a-b", "\x7d"]
  tree := some outputTree

/-- The output uses the variable. -/
theorem references_reach_addresses_output :
    (∃ e ∈ (survey {} {} outputSource).elements, e.name = "var.a-b") ∧
      (survey {} {} outputSource).relates "output.o" "var.a-b" .uses = true := by
  have hdeclared : "var.a-b" ∈ (blocks outputTree).flatMap fun block =>
      (header? outputSource.unit block).toList.flatMap (names outputSource.unit block) := by
    decide +kernel
  have hpassage : ⟨"output.o", "\x7b\n  value = var.a-b\n\x7d", 2⟩ ∈
      allPassages outputSource.unit outputTree := by decide +kernel
  have hidentifier : IsIdentifier "a-b" :=
    ⟨'a', ['-', 'b'], by decide, by decide, List.all_eq_true.mp (by decide)⟩
  obtain ⟨hnames, -, hpassages⟩ := @references_reach_addresses {} {} outputSource
    Detect.Terraform.bank outputTree rfl rfl
  obtain ⟨block, hblock, hname⟩ := List.mem_flatMap.mp hdeclared
  obtain ⟨h, hheader, hname⟩ := List.mem_flatMap.mp hname
  refine ⟨hnames block hblock h (Option.mem_toList.mp hheader) _ hname, ?_⟩
  obtain ⟨-, -, -, huses⟩ := hpassages _ hpassage
  have haddress : IsAddress "var.a-b" := .block (@Header.Referable.ofVariable _ [] hidentifier)
  refine huses "var.a-b" haddress (by decide) ?_
  refine ⟨"\x7b\n  value = ".toList, "\n\x7d".toList, by decide, ?_, ?_⟩
  · rintro c ⟨⟩
    decide
  · rintro c ⟨⟩
    decide

end CodeSurvey.Terraform
