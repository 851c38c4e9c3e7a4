import CodeSurvey.Frontend.JsonFile
import CodeSurvey.Proofs.Code.QuotedNames
import CodeSurvey.Proofs.Json.Texts
import CodeSurvey.Proofs.Report.Recording

/-!
# The lines of keys

The keys of the outermost object of a text stand at certain places in it, where the object is read.
The line of the element of a key is taken from the text alone: it is the first line on which the key
stands between quotes, as a value, as a key further inside or as a part of another text. So it is
the line of the key itself just if the quoted key does not stand on a line before.
-/

namespace CodeSurvey

namespace Json

/-! ## Places of keys -/

/-- The keys of fields, each with the characters from its opening quote on. -/
def fieldKeys : Nat → Nat → List Char → List (String × List Char)
  | 0, _, _ => []
  | fuel + 1, depth, cs =>
    match skipGap cs with
    | '"' :: rest =>
      match readString? (rest.length + 1) [] rest with
      | none => []
      | some (key, after) =>
        match skipGap after with
        | ':' :: body =>
          match readValue? fuel depth body with
          | none => []
          | some (_, more) =>
            match skipGap more with
            | ',' :: more => (key, '"' :: rest) :: fieldKeys fuel depth more
            | _ => [(key, '"' :: rest)]
        | _ => []
    | _ => []

/-- The keys of the outermost object of a text in the order of the text, each with the index of its
opening quote. -/
def keyTokens (s : String) : List (String × Nat) :=
  match skipGap s.toList with
  | '\x7b' :: rest =>
    (fieldKeys (2 * s.length + 1) (maxDepth - 1) (skipGap rest)).map fun t =>
      (t.1, s.length - t.2.length)
  | _ => []

/-- The keys are those of the fields that are read. -/
theorem map_fst_fieldKeys {fuel depth : Nat} {cs : List Char}
    {p : List (String × Json) × List Char} (h : readFields? fuel depth cs = some p) :
    (fieldKeys fuel depth cs).map (·.1) = p.1.map (·.1) := by
  induction fuel generalizing cs p with
  | zero => cases h
  | succ fuel ih =>
    rw [readFields?.eq_def] at h
    rw [fieldKeys]
    dsimp only at h
    generalize skipGap cs = tokens at h ⊢
    split at h
    · obtain ⟨key, hkey, h⟩ := Option.bind_eq_some_iff.mp h
      simp only [hkey]
      generalize skipGap key.2 = colon at h ⊢
      split at h
      · obtain ⟨v, hv, h⟩ := Option.bind_eq_some_iff.mp h
        simp only [hv]
        generalize skipGap v.2 = ending at h ⊢
        split at h
        · obtain ⟨q, hq, hp⟩ := Option.bind_eq_some_iff.mp h
          cases hp
          exact congrArg (key.1 :: ·) (ih hq)
        · cases h
          rfl
        · cases h
      · cases h
    · cases h

/-- The keys are read where they are said to stand. -/
theorem read_of_mem_fieldKeys {fuel depth : Nat} {cs : List Char} {t : String × List Char}
    (h : t ∈ fieldKeys fuel depth cs) : t.2 <:+ cs ∧ ∃ rest after, t.2 = '"' :: rest ∧
      readString? (rest.length + 1) [] rest = some (t.1, after) := by
  fun_induction fieldKeys fuel depth cs with
  | case4 fuel depth cs rest hquote key after hread body hcolon v more hvalue later hcomma ih =>
    have hrest : '"' :: rest <:+ cs := hquote ▸ skipGap_suffix cs
    rcases List.mem_cons.mp h with rfl | hlater
    · exact ⟨hrest, rest, after, rfl, hread⟩
    · obtain ⟨hsuffix, hreads⟩ := ih hlater
      have hbody : body <:+ after := (List.suffix_cons _ _).trans (hcolon ▸ skipGap_suffix after)
      have hmore : more <:+ body := ((readFrom_of_read fuel).1 hvalue).suffix
      have hnext : later <:+ more := (List.suffix_cons _ _).trans (hcomma ▸ skipGap_suffix more)
      have hafter : after <:+ '"' :: rest :=
        (suffix_readString? hread).trans (List.suffix_cons _ _)
      exact ⟨hsuffix.trans (hnext.trans (hmore.trans (hbody.trans (hafter.trans hrest)))),
        hreads⟩
  | case5 fuel depth cs rest hquote key after hread body hcolon v more hvalue hlast =>
    obtain rfl := List.mem_singleton.mp h
    exact ⟨hquote ▸ skipGap_suffix cs, rest, after, rfl, hread⟩
  | _ => cases h

/-- From the index of a key on the text is a quote and then the key. -/
theorem read_of_mem_keyTokens {s key : String} {i : Nat} (h : (key, i) ∈ keyTokens s) :
    ∃ rest after, s.toList.drop i = '"' :: rest ∧
      readString? (rest.length + 1) [] rest = some (key, after) := by
  unfold keyTokens at h
  split at h
  · next inner hbrace =>
    obtain ⟨t, ht, heq⟩ := List.mem_map.mp h
    cases heq
    obtain ⟨hsuffix, hreads⟩ := read_of_mem_fieldKeys ht
    have hinner : inner <:+ s.toList :=
      (List.suffix_cons _ _).trans (hbrace ▸ skipGap_suffix s.toList)
    have hwhole : t.2 <:+ s.toList := hsuffix.trans ((skipGap_suffix inner).trans hinner)
    rw [← String.length_toList, ← List.suffix_iff_eq_drop.mp hwhole]
    exact hreads
  · cases h

end Json

theorem Fields.mem_keys_ofList {entries : List (String × Json)} {key : String} :
    key ∈ (Fields.ofList entries).map (·.1) ↔ key ∈ entries.map (·.1) := by
  suffices hfold : ∀ fields : Fields,
      key ∈ (entries.foldl (fun fields e => Fields.set e.1 e.2 fields) fields).map (·.1) ↔
        key ∈ fields.map (·.1) ∨ key ∈ entries.map (·.1) from
    (hfold []).trans (or_iff_right List.not_mem_nil)
  induction entries with
  | nil => simp
  | cons e rest ih =>
    intro fields
    rw [List.foldl_cons, ih, mem_keys_set, List.map_cons, List.mem_cons, or_comm (a := key = e.1),
      or_assoc]

namespace Json

/-- An object is read from a brace on, and its keys are those of its fields. -/
theorem exists_brace_of_readValue? {fuel depth : Nat} {cs rest : List Char} {fields : Fields}
    (h : readValue? (fuel + 1) depth cs = some (.obj fields, rest)) :
    ∃ inner, skipGap cs = '\x7b' :: inner ∧ ∀ key, key ∈ fields.map (·.1) ↔
      key ∈ (fieldKeys fuel (depth - 1) (skipGap inner)).map (·.1) := by
  rw [readValue?.eq_def] at h
  dsimp only at h
  -- only a brace starts an object, so the other cases give a value of another kind
  split at h
  case h_3 inner hbrace =>
    refine ⟨inner, hbrace, fun key => ?_⟩
    split at h
    · cases h
    · split at h
      · next hend =>
        cases h
        rw [hend]
        cases fuel <;> exact Iff.rfl
      · obtain ⟨p, hp, heq⟩ := Option.map_eq_some_iff.mp h
        cases heq
        rw [Fields.mem_keys_ofList, map_fst_fieldKeys hp]
  case h_2 inner hbracket =>
    split at h
    · cases h
    · split at h
      · cases h
      · obtain ⟨p, -, hp⟩ := Option.map_eq_some_iff.mp h
        cases hp
  all_goals
    obtain ⟨p, -, hp⟩ := Option.map_eq_some_iff.mp h
    cases hp

/-- The keys of an object that a text holds are those that stand in the text. -/
theorem mem_keys_iff_of_parse? {s : String} {fields : Fields} (h : parse? s = some (.obj fields))
    {key : String} : key ∈ fields.map (·.1) ↔ key ∈ (keyTokens s).map (·.1) := by
  unfold parse? at h
  split at h
  · next value rest hread =>
    split at h
    · obtain rfl := Option.some.inj h
      obtain ⟨inner, hinner, hkeys⟩ := exists_brace_of_readValue? hread
      simp only [hkeys, keyTokens, hinner, List.map_map]
      exact Iff.rfl
    · cases h
  · cases h

end Json

namespace JsonFile

/-! ## Lines of the elements of keys -/

/-- The properties of a file are its outermost keys. -/
theorem properties_survey (settings : Settings) (fs : FileSystem) {source : Source}
    (hlive : source.cancelled = false) :
    (survey settings fs source).elementsOf .property =
      (topKeys (Json.parse? source.content)).map fun key =>
        (keyDeclaration source.content key).toElement source.path
          (source.place settings fs).context := by
  have hadditive : ∀ f ∈ facts source.path source.content (Json.parse? source.content),
      f.Additive := List.forall_mem_map.mpr fun _ _ => trivial
  unfold survey
  dsimp only
  rw [if_neg (Bool.eq_false_iff.mp hlive), Report.elementsOf,
    Report.elements_recordAll _ _ hadditive, List.filter_append]
  refine (congrArg₂ (· ++ ·) ?_ ?_).trans (List.nil_append _)
  · simp [Report.opening, Report.updateFile, Report.modifyFirst, Element.update,
      Declaration.toElement, Declaration.note, fileDeclaration]
  · have hdeclared := congrFun (List.filterMap_eq_map (f := fun key =>
      (keyDeclaration source.content key).toElement source.path (source.place settings fs).context))
      (topKeys (Json.parse? source.content))
    rw [declared, facts, List.filterMap_map]
    refine (congrArg (List.filter _) hdeclared).trans (List.filter_eq_self.mpr ?_)
    exact List.forall_mem_map.mpr fun _ _ => decide_eq_true rfl

/-- The keys of the object in a file are read where their tokens stand. The element of a key without
escapes is put on the least line with the quoted key, which is the line of the token just if the
quoted key does not stand on a line before. -/
theorem key_lines (settings : Settings) (fs : FileSystem) {source : Source} {fields : Fields}
    (hlive : source.cancelled = false)
    (hparse : Json.parse? source.content = some (.obj fields)) :
    (∀ key, key ∈ fields.map (·.1) ↔ key ∈ (Json.keyTokens source.content).map (·.1)) ∧
    ∀ key i, (key, i) ∈ Json.keyTokens source.content →
      (∃ rest after, source.content.toList.drop i = '"' :: rest ∧
        Json.readString? (rest.length + 1) [] rest = some (key, after)) ∧
      (Text.StandsAt (Code.quotedName key) source.content i →
        ∃ e, ((survey settings fs source).elementsOf .property).filter (·.name = key) = [e] ∧
          IsLeast {n | ∃ j, Text.StandsAt (Code.quotedName key) source.content j ∧
            Text.lineOfIndex source.content j = n} e.lineNumber ∧
          (e.lineNumber = Text.lineOfIndex source.content i ↔
            ∀ j, Text.StandsAt (Code.quotedName key) source.content j →
              Text.lineOfIndex source.content i ≤ Text.lineOfIndex source.content j)) := by
  refine ⟨fun key => Json.mem_keys_iff_of_parse? hparse, ?_⟩
  intro key i htoken
  refine ⟨Json.read_of_mem_keyTokens htoken, fun hstands => ?_⟩
  have hmem : key ∈ fields.map (·.1) :=
    (Json.mem_keys_iff_of_parse? hparse).mpr (List.mem_map.mpr ⟨_, htoken, rfl⟩)
  have hnodup : (fields.map (·.1)).Nodup := (Json.ascending_of_parse? hparse).imp ne_of_lt
  have hleast := Code.isLeast_lineOfQuoted hstands
  refine ⟨(keyDeclaration source.content key).toElement source.path
    (source.place settings fs).context, ?_, hleast, ?_⟩
  · have hone : (fields.map (·.1)).filter (· = key) = [key] := by
      rw [List.filter_eq, List.count_eq_one_of_mem hnodup hmem]
      rfl
    rw [properties_survey settings fs hlive, hparse, List.filter_map]
    exact congrArg (List.map _) hone
  · constructor
    · intro heq j hj
      exact heq ▸ hleast.2 ⟨j, hj, rfl⟩
    · intro hfirst
      obtain ⟨j, hj, hline⟩ := hleast.1
      exact le_antisymm (hleast.2 ⟨i, hstands, rfl⟩) ((hfirst j hj).trans_eq hline)

/-- A package file in which a key is the value of an earlier one. -/
def packageFile : Source where
  path := "a.json"
  content := "\x7b\n  \"main\": \"scripts\",\n  \"scripts\": \x7b\x7d\n\x7d"

theorem parse?_packageFile : Json.parse? packageFile.content =
    some (.obj [("main", .str "scripts"), ("scripts", .obj [])]) := by
  cbv

theorem keyTokens_packageFile :
    Json.keyTokens packageFile.content = [("main", 4), ("scripts", 25)] := by
  cbv

/-- The first key is put on its line, and the second one is not. -/
theorem key_lines_packageFile :
    (∃ e, ((survey {} {} packageFile).elementsOf .property).filter (·.name = "main") = [e] ∧
      e.lineNumber = 2) ∧
    ∃ e, ((survey {} {} packageFile).elementsOf .property).filter (·.name = "scripts") = [e] ∧
      e.lineNumber ≠ 3 := by
  obtain ⟨-, hlines⟩ := key_lines {} {} rfl parse?_packageFile
  rw [keyTokens_packageFile] at hlines
  constructor
  · obtain ⟨e, he, -, hline⟩ := (hlines "main" 4 (by decide)).2 (by decide +kernel)
    have hfirst : ∀ j < packageFile.content.length,
        Text.StandsAt (Code.quotedName "main") packageFile.content j →
          Text.lineOfIndex packageFile.content 4 ≤ Text.lineOfIndex packageFile.content j := by
      decide +kernel
    refine ⟨e, he, (hline.mpr fun j hj => ?_).trans (by decide +kernel)⟩
    exact hfirst j (hj.lt_length (Code.quotedName_ne_nil "main")) hj
  · obtain ⟨e, he, -, hline⟩ := (hlines "scripts" 25 (by decide)).2 (by decide +kernel)
    refine ⟨e, he, fun hthree => ?_⟩
    have hle := hline.mp (hthree.trans (by decide +kernel)) 12 (by decide +kernel)
    exact absurd hle (by decide +kernel)

/-- The key `scripts` stands on the third line and is put on the second one. -/
theorem scripts_line_packageFile :
    Json.parse? packageFile.content =
        some (.obj [("main", .str "scripts"), ("scripts", .obj [])]) ∧
      Json.keyTokens packageFile.content = [("main", 4), ("scripts", 25)] ∧
      Text.StandsAt (Code.quotedName "scripts") packageFile.content 25 ∧
      Text.lineOfIndex packageFile.content 25 = 3 ∧
      ((survey {} {} packageFile).elementsOf .property).map (fun e => (e.name, e.lineNumber)) =
        [("main", 2), ("scripts", 2)] := by
  refine ⟨parse?_packageFile, keyTokens_packageFile, by decide +kernel, by decide +kernel, ?_⟩
  rw [properties_survey {} {} rfl, parse?_packageFile]
  decide +kernel

end JsonFile

end CodeSurvey
