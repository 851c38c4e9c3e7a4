import CodeSurvey.Proofs.Json.Fields
import CodeSurvey.Proofs.Text.Occurrence

/-!
# The texts of a document in its source

What the reader leaves of a source is an end of it. A text is read as it stands there unless it is
written with escapes, so that in a source without a backslash every text of the document occurs. In
the other direction, a text without quotes, backslashes and control characters is read back from
between its quotes.
-/

namespace CodeSurvey

namespace Json

/-! ## What readers leave -/

theorem skipGap_suffix (cs : List Char) : skipGap cs <:+ cs := List.dropWhile_suffix _

theorem suffix_takeDigits (value count : Nat) (cs : List Char) :
    (takeDigits value count cs).2.2 <:+ cs := by
  fun_induction takeDigits value count cs with
  | case1 value count => exact List.suffix_refl []
  | case2 value count c rest hc => exact List.suffix_refl _
  | case3 value count c rest d hd hfits ih => exact ih.trans (List.suffix_cons c rest)
  | case4 value count c rest d hd hfits => exact List.suffix_refl _

theorem suffix_skipDigits (cs : List Char) : (skipDigits cs).2 <:+ cs := List.dropWhile_suffix _

theorem suffix_readExponent? {negative : Bool} {significand : Nat} {start : Int} {cs : List Char}
    {p : Binary × List Char} (h : readExponent? negative significand start cs = some p) :
    p.2 <:+ cs := by
  unfold readExponent? at h
  split at h
  next down ds hsign =>
  have hds : ds <:+ cs := by
    split at hsign
    · cases hsign
      exact List.suffix_cons _ _
    · cases hsign
      exact List.suffix_cons _ _
    · cases hsign
      exact List.suffix_refl _
  dsimp only at h
  split at h
  · cases h
  · split at h
    · split at h
      · cases h
      · cases h
        exact (List.dropWhile_suffix _).trans hds
    · obtain ⟨x, -, hx⟩ := Option.bind_eq_some_iff.mp h
      cases hx
      exact (List.dropWhile_suffix _).trans hds

theorem suffix_readAfterDigits? {negative : Bool} {significand : Nat} {exponent : Int}
    {cs : List Char} {p : Binary × List Char}
    (h : readAfterDigits? negative significand exponent cs = some p) : p.2 <:+ cs := by
  unfold readAfterDigits? at h
  split at h
  · exact (suffix_readExponent? h).trans (List.suffix_cons _ _)
  · exact (suffix_readExponent? h).trans (List.suffix_cons _ _)
  · obtain ⟨x, -, rfl⟩ := Option.map_eq_some_iff.mp h
    exact List.suffix_refl _

theorem suffix_readFraction? {negative : Bool} {significand : Nat} {exponent : Int}
    {cs : List Char} {p : Binary × List Char}
    (h : readFraction? negative significand exponent cs = some p) : p.2 <:+ cs := by
  unfold readFraction? at h
  dsimp only at h
  split at h
  · cases h
  · exact ((suffix_readAfterDigits? h).trans (suffix_skipDigits _)).trans (suffix_takeDigits _ _ _)

theorem suffix_readNumber? {negative : Bool} {cs : List Char} {p : JsonNumber × List Char}
    (h : readNumber? negative cs = some p) : p.2 <:+ cs := by
  unfold readNumber? at h
  dsimp only at h
  have hdigits : (skipDigits (takeDigits 0 0 cs).2.2).2 <:+ cs :=
    (suffix_skipDigits _).trans (suffix_takeDigits _ _ _)
  generalize (skipDigits (takeDigits 0 0 cs).2.2).2 = rest at h hdigits
  split at h
  · cases h
  · split at h
    · cases h
    · split at h
      · obtain ⟨x, hx, rfl⟩ := Option.map_eq_some_iff.mp h
        exact ((suffix_readFraction? hx).trans (List.suffix_cons _ _)).trans hdigits
      · obtain ⟨x, hx, rfl⟩ := Option.map_eq_some_iff.mp h
        exact ((suffix_readExponent? hx).trans (List.suffix_cons _ _)).trans hdigits
      · obtain ⟨x, hx, rfl⟩ := Option.map_eq_some_iff.mp h
        exact ((suffix_readExponent? hx).trans (List.suffix_cons _ _)).trans hdigits
      · split at h
        · obtain ⟨x, -, rfl⟩ := Option.map_eq_some_iff.mp h
          exact hdigits
        · split at h
          · cases h
            exact hdigits
          · split at h
            · cases h
              exact hdigits
            · cases h
              exact hdigits

theorem suffix_after? {word cs rest : List Char} (h : after? word cs = some rest) :
    rest <:+ cs := by
  fun_induction after? word cs with
  | case1 cs =>
    obtain rfl := Option.some.inj h
    exact List.suffix_refl _
  | case2 a word c cs heq ih => exact (ih h).trans (List.suffix_cons c cs)
  | case3 | case4 => cases h

theorem suffix_hexCode? {cs : List Char} {p : Nat × List Char} (h : hexCode? cs = some p) :
    p.2 <:+ cs := by
  unfold hexCode? at h
  split at h
  · next a b c d rest =>
    simp only [Option.bind_eq_bind, Option.bind_eq_some_iff] at h
    obtain ⟨_, -, _, -, _, -, _, -, hp⟩ := h
    cases hp
    exact List.suffix_append [a, b, c, d] rest
  · cases h

theorem suffix_readUnicodeEscape? {cs : List Char} {p : Char × List Char}
    (h : readUnicodeEscape? cs = some p) : p.2 <:+ cs := by
  unfold readUnicodeEscape? at h
  obtain ⟨high, hhigh, h⟩ := Option.bind_eq_some_iff.mp h
  have hrest := suffix_hexCode? hhigh
  dsimp only at h
  split at h
  · cases h
  · split at h
    · generalize high.2 = rest at h hrest
      split at h
      · next tail =>
        obtain ⟨low, hlow, h⟩ := Option.bind_eq_some_iff.mp h
        split at h
        · obtain rfl := Option.some.inj h
          exact ((suffix_hexCode? hlow).trans (List.suffix_append ['\\', 'u'] tail)).trans hrest
        · cases h
      · cases h
    · cases h
      exact hrest

theorem suffix_readEscape? {cs : List Char} {p : Char × List Char} (h : readEscape? cs = some p) :
    p.2 <:+ cs := by
  unfold readEscape? at h
  split at h
  case h_9 => exact (suffix_readUnicodeEscape? h).trans (List.suffix_cons _ _)
  case h_10 => cases h
  all_goals
    cases h
    exact List.suffix_cons _ _

theorem suffix_readString? {fuel : Nat} {read cs : List Char} {p : String × List Char}
    (h : readString? fuel read cs = some p) : p.2 <:+ cs := by
  fun_induction readString? fuel read cs with
  | case1 | case2 => cases h
  | case3 read fuel c rest hquote =>
    obtain rfl := Option.some.inj h
    exact List.suffix_cons c rest
  | case4 read fuel c rest hquote hescape ih =>
    obtain ⟨q, hq, h⟩ := Option.bind_eq_some_iff.mp h
    exact ((ih q.1 q.2 h).trans (suffix_readEscape? hq)).trans (List.suffix_cons c rest)
  | case5 => cases h
  | case6 read fuel c rest hquote hescape hprintable ih =>
    exact (ih h).trans (List.suffix_cons c rest)

/-- Without a backslash a text is read as it stands before its closing quote. -/
theorem eq_append_of_readString? {fuel : Nat} {read cs : List Char} {p : String × List Char}
    (h : readString? fuel read cs = some p) (hplain : '\\' ∉ cs) :
    read.reverse ++ cs = p.1.toList ++ '"' :: p.2 := by
  fun_induction readString? fuel read cs with
  | case1 | case2 => cases h
  | case3 read fuel c rest hquote =>
    obtain rfl := Option.some.inj h
    simp [eq_of_beq hquote]
  | case4 read fuel c rest hquote hescape ih =>
    exact absurd (eq_of_beq hescape ▸ List.mem_cons_self) hplain
  | case5 => cases h
  | case6 read fuel c rest hquote hescape hprintable ih =>
    have hrest := ih h fun hmem => hplain (List.mem_cons_of_mem c hmem)
    rw [← hrest, List.reverse_cons, List.append_assoc, List.singleton_append]

end Json

theorem Fields.mem_of_mem_set {key : String} {value : Json} {fields : Fields} {e : String × Json}
    (h : e ∈ fields.set key value) : e = (key, value) ∨ e ∈ fields := by
  fun_induction Fields.set key value fields with
  | case1 | case2 => exact List.mem_cons.mp h
  | case3 v rest hlt =>
    rcases List.mem_cons.mp h with rfl | hrest
    · exact .inl rfl
    · exact .inr (List.mem_cons_of_mem _ hrest)
  | case4 k v rest hlt hne ih =>
    rcases List.mem_cons.mp h with rfl | hrest
    · exact .inr List.mem_cons_self
    · exact (ih hrest).imp_right (List.mem_cons_of_mem _)

theorem Fields.mem_of_mem_ofList {entries : List (String × Json)} {e : String × Json}
    (h : e ∈ Fields.ofList entries) : e ∈ entries := by
  suffices hfold : ∀ fields : Fields,
      e ∈ entries.foldl (fun fields e => Fields.set e.1 e.2 fields) fields →
        e ∈ fields ∨ e ∈ entries from
    (hfold [] h).resolve_left List.not_mem_nil
  clear h
  induction entries with
  | nil => exact fun fields h => .inl h
  | cons first rest ih =>
    intro fields h
    rcases ih _ h with hset | hrest
    · rcases Fields.mem_of_mem_set hset with rfl | hfields
      · exact .inr List.mem_cons_self
      · exact .inl hfields
    · exact .inr (List.mem_cons_of_mem first hrest)

namespace Json

/-! ## Documents and the characters they are read from -/

/-- A value is a part of another, at any depth. -/
inductive Part (part : Json) : Json → Prop
  | here : Part part part
  | item {v : Json} {items : List Json} (hv : v ∈ items) (h : Part part v) : Part part (.arr items)
  | field {e : String × Json} {fields : Fields} (he : e ∈ fields) (h : Part part e.2) :
      Part part (.obj fields)

/-- The keys of an object ascend, and a text stands in the characters unless they have escapes. -/
def Rendered (cs : List Char) : Json → Prop
  | .str s => '\\' ∉ cs → s.toList <:+: cs
  | .obj fields => Fields.Ascending fields
  | _ => True

theorem Rendered.of_suffix {cs ds : List Char} {v : Json} (h : v.Rendered ds) (hds : ds <:+ cs) :
    v.Rendered cs := by
  cases v with
  | str s => exact fun hplain => (h fun hmem => hplain (hds.subset hmem)).trans hds.isInfix
  | obj fields => exact h
  | null | bool | num | arr => trivial

/-- Values were read from characters, of which the rest was left. -/
structure ReadFrom (cs rest : List Char) (values : List Json) : Prop where
  suffix : rest <:+ cs
  rendered : ∀ v ∈ values, ∀ part : Json, part.Part v → part.Rendered cs

namespace ReadFrom

variable {cs ds rest : List Char} {values : List Json}

theorem of_suffix (h : ReadFrom ds rest values) (hds : ds <:+ cs) : ReadFrom cs rest values where
  suffix := h.suffix.trans hds
  rendered v hv part hpart := (h.rendered v hv part hpart).of_suffix hds

theorem leave (h : ReadFrom cs ds values) (hrest : rest <:+ ds) : ReadFrom cs rest values where
  suffix := hrest.trans h.suffix
  rendered := h.rendered

theorem nil (h : rest <:+ cs) : ReadFrom cs rest [] where
  suffix := h
  rendered _ hv := absurd hv List.not_mem_nil

theorem cons {v : Json} (h : ReadFrom cs ds [v]) (hmore : ReadFrom ds rest values) :
    ReadFrom cs rest (v :: values) where
  suffix := hmore.suffix.trans h.suffix
  rendered w hw part hpart := by
    rcases List.mem_cons.mp hw with rfl | hlater
    · exact h.rendered w (List.mem_singleton_self w) part hpart
    · exact (hmore.rendered w hlater part hpart).of_suffix h.suffix

/-- A value that is its own only part. -/
theorem leaf {v : Json} (h : rest <:+ cs) (hparts : ∀ part : Json, part.Part v → part = v)
    (hv : v.Rendered cs) : ReadFrom cs rest [v] where
  suffix := h
  rendered w hw part hpart := by
    obtain rfl := List.mem_singleton.mp hw
    rw [hparts part hpart]
    exact hv

theorem str {p : String × List Char} (h : readString? (ds.length + 1) [] ds = some p)
    (hds : ds <:+ cs) : ReadFrom cs p.2 [Json.str p.1] := by
  refine leaf ((suffix_readString? h).trans hds) (by rintro part ⟨⟩; rfl) fun hplain => ?_
  have heq : ds = p.1.toList ++ '"' :: p.2 :=
    eq_append_of_readString? h fun hmem => hplain (hds.subset hmem)
  refine List.IsInfix.trans ?_ hds.isInfix
  rw [heq]
  exact (List.prefix_append _ _).isInfix

theorem arr {items : List Json} (h : ReadFrom cs rest items) :
    ReadFrom cs rest [Json.arr items] where
  suffix := h.suffix
  rendered v hv part hpart := by
    rw [List.mem_singleton.mp hv] at hpart
    cases hpart with
    | here => trivial
    | item hv hpart => exact h.rendered _ hv part hpart

theorem obj {entries : List (String × Json)} (h : ReadFrom cs rest (entries.map (·.2))) :
    ReadFrom cs rest [Json.obj (Fields.ofList entries)] where
  suffix := h.suffix
  rendered v hv part hpart := by
    rw [List.mem_singleton.mp hv] at hpart
    cases hpart with
    | here => exact Fields.ascending_ofList entries
    | field he hpart =>
      exact h.rendered _ (List.mem_map_of_mem (Fields.mem_of_mem_ofList he)) part hpart

end ReadFrom

section Values

def ReadsValues (fuel : Nat) : Prop :=
  ∀ ⦃depth cs p⦄, readValue? fuel depth cs = some p → ReadFrom cs p.2 [p.1]

def ReadsItems (fuel : Nat) : Prop :=
  ∀ ⦃depth cs p⦄, readItems? fuel depth cs = some p → ReadFrom cs p.2 p.1

def ReadsFields (fuel : Nat) : Prop :=
  ∀ ⦃depth cs p⦄, readFields? fuel depth cs = some p → ReadFrom cs p.2 (p.1.map (·.2))

variable {fuel : Nat}

/-- A value, if items and fields are read with less fuel. -/
theorem readsValues_succ (hitems : ReadsItems fuel) (hfields : ReadsFields fuel) :
    ReadsValues (fuel + 1) := by
  intro depth cs p h
  rw [readValue?.eq_def] at h
  dsimp only at h
  have hgap := skipGap_suffix cs
  generalize skipGap cs = tokens at h hgap
  have htail {c : Char} {rest : List Char} (htokens : c :: rest <:+ cs) : rest <:+ cs :=
    (List.suffix_cons c rest).trans htokens
  -- by the first character: a text, items, fields, three words, and numbers with a sign or without
  split at h
  · obtain ⟨q, hq, rfl⟩ := Option.map_eq_some_iff.mp h
    exact .str hq (htail hgap)
  · next rest =>
    split at h
    · cases h
    · have hinside := (skipGap_suffix rest).trans (htail hgap)
      generalize skipGap rest = inside at h hinside
      split at h
      · cases h
        exact (ReadFrom.nil (htail hinside)).arr
      · obtain ⟨q, hq, rfl⟩ := Option.map_eq_some_iff.mp h
        exact ((hitems hq).of_suffix hinside).arr
  · next rest =>
    split at h
    · cases h
    · have hinside := (skipGap_suffix rest).trans (htail hgap)
      generalize skipGap rest = inside at h hinside
      split at h
      · cases h
        have hnone : ReadFrom cs _ (([] : List (String × Json)).map (·.2)) := .nil (htail hinside)
        exact hnone.obj
      · obtain ⟨q, hq, rfl⟩ := Option.map_eq_some_iff.mp h
        exact ((hfields hq).of_suffix hinside).obj
  all_goals
    obtain ⟨q, hq, rfl⟩ := Option.map_eq_some_iff.mp h
    refine .leaf ?_ (by rintro part ⟨⟩; rfl) trivial
  · exact (suffix_after? hq).trans (htail hgap)
  · exact (suffix_after? hq).trans (htail hgap)
  · exact (suffix_after? hq).trans (htail hgap)
  · exact (suffix_readNumber? hq).trans (htail hgap)
  · exact (suffix_readNumber? hq).trans hgap

/-- Items, if a value and the further items are read. -/
theorem readsItems_succ (hvalue : ReadsValues fuel) (hitems : ReadsItems fuel) :
    ReadsItems (fuel + 1) := by
  intro depth cs p h
  rw [readItems?.eq_def] at h
  obtain ⟨first, hfirst, h⟩ := Option.bind_eq_some_iff.mp h
  have hread := hvalue hfirst
  dsimp only at h
  have hgap := skipGap_suffix first.2
  generalize skipGap first.2 = tokens at h hgap
  split at h
  · obtain ⟨q, hq, hp⟩ := Option.bind_eq_some_iff.mp h
    cases hp
    exact hread.cons ((hitems hq).of_suffix ((List.suffix_cons _ _).trans hgap))
  · cases h
    exact hread.leave ((List.suffix_cons _ _).trans hgap)
  · cases h

/-- Fields, if a value and the further fields are read. -/
theorem readsFields_succ (hvalue : ReadsValues fuel) (hfields : ReadsFields fuel) :
    ReadsFields (fuel + 1) := by
  intro depth cs p h
  rw [readFields?.eq_def] at h
  dsimp only at h
  have hgap := skipGap_suffix cs
  generalize skipGap cs = tokens at h hgap
  split at h
  · next rest =>
    obtain ⟨key, hkey, h⟩ := Option.bind_eq_some_iff.mp h
    have hafter : key.2 <:+ cs :=
      (suffix_readString? hkey).trans ((List.suffix_cons _ _).trans hgap)
    have hcolon := (skipGap_suffix key.2).trans hafter
    generalize skipGap key.2 = colon at h hcolon
    split at h
    · next body =>
      obtain ⟨v, hv, h⟩ := Option.bind_eq_some_iff.mp h
      have hread := (hvalue hv).of_suffix ((List.suffix_cons _ _).trans hcolon)
      have hend := skipGap_suffix v.2
      generalize skipGap v.2 = ending at h hend
      split at h
      · obtain ⟨q, hq, hp⟩ := Option.bind_eq_some_iff.mp h
        cases hp
        exact hread.cons ((hfields hq).of_suffix ((List.suffix_cons _ _).trans hend))
      · cases h
        exact hread.leave ((List.suffix_cons _ _).trans hend)
      · cases h
    · cases h
  · cases h

/-- What the three readers read with the same fuel. -/
theorem readFrom_of_read (fuel : Nat) :
    ReadsValues fuel ∧ ReadsItems fuel ∧ ReadsFields fuel := by
  induction fuel with
  | zero =>
    refine ⟨?_, ?_, ?_⟩
    all_goals
      intro depth cs p h
      cases h
  | succ fuel ih =>
    obtain ⟨hvalue, hitems, hfields⟩ := ih
    exact ⟨readsValues_succ hitems hfields, readsItems_succ hvalue hitems,
      readsFields_succ hvalue hfields⟩

end Values

theorem rendered_of_parse? {source : String} {document part : Json}
    (h : parse? source = some document) (hpart : part.Part document) :
    part.Rendered source.toList := by
  unfold parse? at h
  split at h
  · next v rest hread =>
    split at h
    · obtain rfl := Option.some.inj h
      exact ((readFrom_of_read _).1 hread).rendered v (List.mem_singleton_self v) part hpart
    · cases h
  · cases h

/-- The object that a text holds has its keys in strictly ascending order. -/
theorem ascending_of_parse? {text : String} {fields : Fields}
    (h : parse? text = some (.obj fields)) : fields.Ascending := rendered_of_parse? h .here

/-! ## Parts by their keys -/

theorem part_of_field? {key : String} {v w : Json} (h : v.field? key = some w) : w.Part v := by
  obtain ⟨fields, hfields, hget⟩ := Option.bind_eq_some_iff.mp h
  cases v with
  | obj own =>
    obtain rfl := Option.some.inj hfields
    obtain ⟨before, after, hsplit, -⟩ := List.lookup_eq_some_iff.mp hget
    exact .field (hsplit ▸ List.mem_append_right before List.mem_cons_self) .here
  | null | bool | num | str | arr => cases hfields

theorem Part.trans {u v w : Json} (huv : u.Part v) (hvw : v.Part w) : u.Part w := by
  induction hvw with
  | here => exact huv
  | item hv h ih => exact .item hv ih
  | field he h ih => exact .field he ih

/-! ## Texts read back -/

/-- Whether the character stands between quotes as it is. -/
def isPlain (c : Char) : Bool := c != '"' && c != '\\' && 32 ≤ c.toNat

theorem isPlain_of_isAlpha {c : Char} (h : c.isAlpha = true) : isPlain c = true := by
  simp only [isPlain, Bool.and_eq_true, bne_iff_ne, decide_eq_true_eq]
  refine ⟨⟨?_, ?_⟩, ?_⟩
  · rintro rfl
    exact absurd h (by decide)
  · rintro rfl
    exact absurd h (by decide)
  · simp only [Char.isAlpha, Char.isUpper, Char.isLower, Bool.or_eq_true, Bool.and_eq_true,
      decide_eq_true_eq] at h
    rcases h with ⟨hlow, -⟩ | ⟨hlow, -⟩
    · exact le_trans (by decide) (show 65 ≤ c.toNat from hlow)
    · exact le_trans (by decide) (show 97 ≤ c.toNat from hlow)

theorem readString?_plain {fuel : Nat} {text : List Char} (h : text.all isPlain = true)
    (hfuel : text.length < fuel) (read rest : List Char) :
    readString? fuel read (text ++ '"' :: rest) =
      some (String.ofList (read.reverse ++ text), rest) := by
  induction text generalizing fuel read with
  | nil =>
    obtain ⟨fuel, rfl⟩ := Nat.exists_eq_add_one_of_ne_zero (Nat.ne_of_gt hfuel)
    simp [readString?]
  | cons c text ih =>
    obtain ⟨fuel, rfl⟩ :=
      Nat.exists_eq_add_one_of_ne_zero (Nat.ne_of_gt (Nat.zero_lt_of_lt hfuel))
    obtain ⟨hc, hrest⟩ := Bool.and_eq_true_iff.mp (List.all_cons ▸ h)
    simp only [isPlain, Bool.and_eq_true, bne_iff_ne, decide_eq_true_eq] at hc
    obtain ⟨⟨hquote, hescape⟩, hcode⟩ := hc
    rw [List.cons_append, readString?, if_neg (by simpa using hquote),
      if_neg (by simpa using hescape), if_neg (Nat.not_lt.mpr hcode),
      ih hrest (Nat.lt_of_succ_lt_succ hfuel)]
    simp

/-- A text between quotes, before other characters. -/
def quoted (text : String) (rest : List Char) : List Char := '"' :: (text.toList ++ '"' :: rest)

section ReadBack

variable {fuel depth : Nat} {rest : List Char}

/-- An object is read from its first key on. -/
theorem readValue?_object {inner : List Char} {entries : List (String × Json)}
    (h : readFields? fuel depth ('"' :: inner) = some (entries, rest)) :
    readValue? (fuel + 1) (depth + 1) ('\x7b' :: '"' :: inner) =
      some (.obj (Fields.ofList entries), rest) := by
  rw [readValue?.eq_def]
  change (readFields? fuel depth ('"' :: inner)).map _ = _
  rw [h]
  rfl

variable {text : String} (h : text.toList.all isPlain = true)

include h

theorem readString?_quoted (rest : List Char) :
    readString? ((text.toList ++ '"' :: rest).length + 1) [] (text.toList ++ '"' :: rest) =
      some (text, rest) := by
  have hfuel : text.toList.length < (text.toList ++ '"' :: rest).length + 1 := by
    rw [List.length_append]
    omega
  rw [readString?_plain h hfuel, List.reverse_nil, List.nil_append, String.ofList_toList]

theorem readValue?_quoted (rest : List Char) :
    readValue? (fuel + 1) depth (quoted text rest) = some (.str text, rest) := by
  rw [readValue?.eq_def]
  change (readString? _ [] (text.toList ++ '"' :: rest)).map _ = _
  rw [readString?_quoted h]
  rfl

variable {body : List Char} {v : Json}

theorem readFields?_last (hv : readValue? fuel depth body = some (v, '\x7d' :: rest)) :
    readFields? (fuel + 1) depth (quoted text (':' :: body)) = some ([(text, v)], rest) := by
  rw [readFields?.eq_def]
  change (readString? _ [] (text.toList ++ '"' :: ':' :: body)).bind _ = _
  rw [readString?_quoted h]
  change (readValue? fuel depth body).bind _ = _
  rw [hv]
  rfl

theorem readFields?_more {more : List Char} {entries : List (String × Json)}
    (hv : readValue? fuel depth body = some (v, ',' :: more))
    (hmore : readFields? fuel depth more = some (entries, rest)) :
    readFields? (fuel + 1) depth (quoted text (':' :: body)) =
      some ((text, v) :: entries, rest) := by
  rw [readFields?.eq_def]
  change (readString? _ [] (text.toList ++ '"' :: ':' :: body)).bind _ = _
  rw [readString?_quoted h]
  change (readValue? fuel depth body).bind _ = _
  rw [hv]
  change (readFields? fuel depth more).bind _ = _
  rw [hmore]
  rfl

end ReadBack

end Json

end CodeSurvey
