import CodeSurvey.Files.Path
import CodeSurvey.Proofs.Text.Case

/-!
# Extensions of paths

The extension of `name.ext` is `ext`, and the letter case of the basic letters of a path does not
change its extension in lower case: slashes, dots and what counts as a name have no letters. A path
with an extension has it at its end, but for slashes and dots that do not count.
-/

namespace CodeSurvey

namespace Text

/-! ## Cutting in lower case -/

theorem piecesOf_map {p : Char → Bool} {f : Char → Char} (h : ∀ c, p (f c) = p c)
    (pending cs : List Char) :
    piecesOf p (pending.map f) (cs.map f) = (piecesOf p pending cs).map (List.map f) := by
  induction cs generalizing pending with
  | nil => simp [piecesOf]
  | cons c cs ih =>
    simp only [List.map_cons, piecesOf, h]
    by_cases hc : p c = true
    · have hrest := ih []
      rw [List.map_nil] at hrest
      simp [hc, hrest]
    · have hrest := ih (c :: pending)
      rw [List.map_cons] at hrest
      simp [hc, hrest]

/-- Cutting at a character that is no basic letter commutes with lower-casing. -/
theorem split_lowerAscii {d : Char} (hd : d.isAlpha = false) (s : String) :
    split d (lowerAscii s) = (split d s).map lowerAscii := by
  have h := piecesOf_map (p := (· == d)) (toLower_beq hd) [] s.toList
  rw [List.map_nil] at h
  simp [split, splitWhere, lowerAscii, h, Function.comp_def]

theorem cutAtLast?_lowerAscii {d : Char} (hd : d.isAlpha = false) (s : String) :
    cutAtLast? (· == d) (lowerAscii s) =
      (cutAtLast? (· == d) s).map fun c => (lowerAscii c.1, lowerAscii c.2) := by
  have hp : (fun c => !(c == d)) ∘ Char.toLower = fun c => !(c == d) := by
    funext c
    simp only [Function.comp_apply, toLower_beq hd]
  simp only [cutAtLast?, lowerAscii, String.toList_ofList, ← List.map_reverse, List.dropWhile_map,
    List.takeWhile_map, hp]
  cases (s.toList.reverse).dropWhile (fun c => !(c == d)) with
  | nil => rfl
  | cons c before => simp

/-- A text without basic letters is the lower case of itself alone. -/
theorem lowerAscii_eq_iff {t : String} (ht : ∀ c ∈ t.toList, c.isAlpha = false) (s : String) :
    lowerAscii s = t ↔ s = t := by
  have hchars (cs ds : List Char) (hds : ∀ c ∈ ds, c.isAlpha = false) :
      cs.map Char.toLower = ds ↔ cs = ds := by
    induction ds generalizing cs with
    | nil => simp
    | cons d ds ih =>
      cases cs with
      | nil => simp
      | cons c cs =>
        have hd := toLower_beq (hds d (by simp)) c
        have hrest := ih cs fun c hc => hds c (by simp [hc])
        simp only [List.map_cons, List.cons.injEq, hrest, ← beq_iff_eq (a := c.toLower), hd,
          beq_iff_eq]
  rw [← String.toList_inj, ← String.toList_inj, lowerAscii, String.toList_ofList]
  exact hchars _ _ ht

@[simp] theorem isEmpty_lowerAscii (s : String) : (lowerAscii s).isEmpty = s.isEmpty := by
  rw [Bool.eq_iff_iff, String.isEmpty_iff, String.isEmpty_iff, lowerAscii_eq_iff (by simp)]

theorem startsWith_slash_lowerAscii (s : String) :
    startsWith "/" (lowerAscii s) = startsWith "/" s := by
  have hc (c : Char) : ('/' == c.toLower) = ('/' == c) := by
    rw [BEq.comm, toLower_beq (by decide), BEq.comm]
  cases hs : s.toList with
  | nil => simp [startsWith, lowerAscii, hs]
  | cons c cs => simp [startsWith, lowerAscii, hs, List.isPrefixOf, hc]

end Text

/-! ## Paths in lower case -/

namespace Path

open Text (lowerAscii)

theorem pieces_lowerAscii (text : String) :
    pieces (lowerAscii text) = (pieces text).map lowerAscii := by
  rw [pieces, Text.split_lowerAscii (by decide), List.filter_map]
  congr 2
  funext s
  simp

@[simp] theorem isName_lowerAscii (part : String) : isName (lowerAscii part) = isName part := by
  rw [Bool.eq_iff_iff]
  simp [isName, Text.lowerAscii_eq_iff]

theorem ofText_lowerAscii (text : String) :
    ofText (lowerAscii text) = ⟨(ofText text).rooted, (ofText text).parts.map lowerAscii⟩ := by
  have hdot (s : String) : lowerAscii s = "." ↔ s = "." := Text.lowerAscii_eq_iff (by simp) s
  have hfilter (parts : List String) : (parts.map lowerAscii).filter (· != ".") =
      (parts.filter (· != ".")).map lowerAscii := by
    have hsame : (fun s => s != ".") ∘ lowerAscii = fun s => s != "." := by
      funext s
      rw [Function.comp_apply, Bool.eq_iff_iff]
      simp [hdot]
    rw [List.filter_map, hsame]
  simp only [ofText, Text.startsWith_slash_lowerAscii, pieces_lowerAscii]
  cases pieces text with
  | nil => rfl
  | cons first rest =>
    simp only [List.map_cons, hfilter, hdot, List.map_append]
    congr 2
    split <;> rfl

theorem fileName?_lowerAscii (text : String) :
    (ofText (lowerAscii text)).fileName? = (ofText text).fileName?.map lowerAscii := by
  rw [ofText_lowerAscii]
  have hsame : isName ∘ lowerAscii = isName := funext isName_lowerAscii
  simp only [fileName?, List.getLast?_map, Option.filter_map, hsame]

theorem extensionOf?_lowerAscii (name : String) :
    extensionOf? (lowerAscii name) = (extensionOf? name).map lowerAscii := by
  simp only [extensionOf?, cutName, Text.cutAtLast?_lowerAscii (d := '.') (by decide)]
  cases Text.cutAtLast? (· == '.') name with
  | none => rfl
  | some cut =>
    simp only [Option.map_some, Text.isEmpty_lowerAscii]
    split <;> rfl

end Path

/-- Two paths that differ in the case of basic letters only have the same extension. -/
theorem extension?_congr {p q : String} (h : Text.lowerAscii p = Text.lowerAscii q) :
    extension? p = extension? q := by
  have hlower (path : String) : extension? (Text.lowerAscii path) = extension? path := by
    simp only [extension?, extensionAsWritten?, Path.fileName?_lowerAscii]
    cases (Path.ofText path).fileName? with
    | none => rfl
    | some name =>
      have hsame : Text.lower ∘ Text.lowerAscii = Text.lower := funext Text.lower_lowerAscii
      simp only [Option.map_some, Option.bind_some, Path.extensionOf?_lowerAscii, Option.map_map,
        hsame]
  rw [← hlower p, h, hlower q]

/-! ## The extension of a name -/

theorem Text.piecesOf_of_not_mem {p : Char → Bool} {cs : List Char} (h : ∀ c ∈ cs, p c = false)
    (pending : List Char) : Text.piecesOf p pending cs = [pending.reverse ++ cs] := by
  induction cs generalizing pending with
  | nil => simp [Text.piecesOf]
  | cons c cs ih =>
    have hrest := ih (fun c hc => h c (by simp [hc])) (c :: pending)
    simp [Text.piecesOf, h c (by simp), hrest]

/-- Cutting `stem.extension` at its last dot. -/
theorem Text.cutAtLast?_name (stem : String) {extension : String} (h : '.' ∉ extension.toList) :
    Text.cutAtLast? (· == '.') (stem ++ "." ++ extension) = some (stem, extension) := by
  have hkeep : ∀ c ∈ extension.toList.reverse, (!(c == '.')) = true := by
    intro c hc
    rw [List.mem_reverse] at hc
    simpa using fun hcd : c = '.' => h (hcd ▸ hc)
  have hlist : (stem ++ "." ++ extension).toList.reverse =
      extension.toList.reverse ++ '.' :: stem.toList.reverse := by
    simp
  simp only [Text.cutAtLast?, hlist, List.dropWhile_append_of_pos hkeep,
    List.takeWhile_append_of_pos hkeep]
  simp

/-- A name without slashes, other than `.` and `..`, is a path of its own. -/
theorem Path.fileName?_name (name : String) (hslash : '/' ∉ name.toList) (hne : name ≠ "")
    (hname : Path.isName name = true) : (Path.ofText name).fileName? = some name := by
  have hcut : Text.split '/' name = [name] := by
    have h : ∀ c ∈ name.toList, (c == '/') = false := by
      intro c hc
      exact beq_eq_false_iff_ne.mpr fun hcs => hslash (hcs ▸ hc)
    simp [Text.split, Text.splitWhere, Text.piecesOf_of_not_mem h]
  have hpieces : Path.pieces name = [name] := by
    simp [Path.pieces, hcut, hne]
  have hdot : name ≠ "." := by
    rintro rfl
    exact absurd hname (by decide)
  simp [Path.ofText, Path.fileName?, hpieces, hdot, Option.filter, hname]

/-- The extension of a file is what its name has after the last dot. -/
theorem extensionAsWritten?_name {stem extension : String} (hstem : stem ≠ "")
    (hne : extension ≠ "") (hslash : '/' ∉ stem.toList) (hslash' : '/' ∉ extension.toList)
    (hdot : '.' ∉ extension.toList) :
    extensionAsWritten? (stem ++ "." ++ extension) = some extension := by
  have hlist : (stem ++ "." ++ extension).toList = stem.toList ++ '.' :: extension.toList := by
    simp
  have hlength : 3 ≤ (stem ++ "." ++ extension).toList.length := by
    have hs : 0 < stem.toList.length := List.length_pos_iff.mpr (by simpa using hstem)
    have he : 0 < extension.toList.length := List.length_pos_iff.mpr (by simpa using hne)
    rw [hlist, List.length_append, List.length_cons]
    omega
  have hshort (t : String) (ht : t.toList.length < 3) : stem ++ "." ++ extension ≠ t := by
    rintro rfl
    omega
  have hname : Path.isName (stem ++ "." ++ extension) = true := by
    rw [Path.isName, Bool.and_eq_true, bne_iff_ne, bne_iff_ne]
    exact ⟨hshort "." (by simp), hshort ".." (by simp)⟩
  have hfile := Path.fileName?_name (stem ++ "." ++ extension)
    (by simp [hlist, hslash, hslash']) (hshort "" (by simp)) hname
  rw [extensionAsWritten?, hfile, Option.bind_some, Path.extensionOf?, Path.cutName,
    Text.cutAtLast?_name stem hdot]
  simp [hstem]

/-! ## Where the extension stands -/

/-- All characters but the separators are in some piece. -/
theorem Text.mem_piecesOf_or {d c : Char} {pending cs : List Char} (h : c ∈ pending.reverse ++ cs) :
    c = d ∨ ∃ piece ∈ Text.piecesOf (· == d) pending cs, c ∈ piece := by
  induction cs generalizing pending with
  | nil => exact .inr ⟨_, List.mem_singleton_self _, by simpa using h⟩
  | cons x cs ih =>
    rw [Text.piecesOf]
    by_cases hx : x = d
    · subst hx
      simp only [beq_self_eq_true, if_true]
      rw [List.mem_append, List.mem_cons] at h
      rcases h with h | rfl | h
      · exact .inr ⟨_, List.mem_cons_self, h⟩
      · exact .inl rfl
      · obtain hc | ⟨piece, hpiece, hc⟩ := @ih [] h
        · exact .inl hc
        · exact .inr ⟨piece, List.mem_cons_of_mem _ hpiece, hc⟩
    · rw [if_neg (by simpa using hx)]
      exact ih (by simpa using h)

/-- What follows a piece is made of the pieces after it. -/
theorem Text.exists_after_piece {d : Char} {pending cs piece : List Char}
    {before after : List (List Char)}
    (h : Text.piecesOf (· == d) pending cs = before ++ piece :: after) :
    ∃ start rest, pending.reverse ++ cs = start ++ (piece ++ rest) ∧
      ∀ c ∈ rest, c = d ∨ ∃ p ∈ after, c ∈ p := by
  induction cs generalizing pending before with
  | nil =>
    obtain ⟨rfl, hpiece⟩ : before = [] ∧ _ := by
      cases before with
      | nil => exact ⟨rfl, (List.cons.inj h).1⟩
      | cons p before => simp [Text.piecesOf] at h
    exact ⟨[], [], by simpa using hpiece, by simp⟩
  | cons x cs ih =>
    rw [Text.piecesOf] at h
    by_cases hx : x = d
    · subst hx
      simp only [beq_self_eq_true, if_true] at h
      cases before with
      | nil =>
        obtain ⟨rfl, rfl⟩ := List.cons.inj h
        refine ⟨[], x :: cs, rfl, fun c hc => ?_⟩
        rcases List.mem_cons.mp hc with rfl | hc
        · exact .inl rfl
        · exact @Text.mem_piecesOf_or x c [] cs hc
      | cons p before =>
        obtain ⟨start, rest, hcs, hrest⟩ := ih (List.cons.inj h).2
        refine ⟨pending.reverse ++ x :: start, rest, ?_, hrest⟩
        rw [List.reverse_nil, List.nil_append] at hcs
        simp [hcs]
    · rw [if_neg (by simpa using hx)] at h
      obtain ⟨start, rest, hcs, hrest⟩ := ih h
      exact ⟨start, rest, by simpa using hcs, hrest⟩

/-- The name that a path ends in is its last piece that counts. -/
theorem Path.getLast?_of_fileName? {text name : String}
    (h : (Path.ofText text).fileName? = some name) :
    ((Path.pieces text).filter (· != ".")).getLast? = some name := by
  obtain ⟨hlast, hname⟩ := Option.filter_eq_some_iff.mp h
  have hdot : name ≠ "." := by
    rintro rfl
    exact absurd hname (by decide)
  have hparts : (Path.ofText text).parts.filter (· != ".") =
      (Path.pieces text).filter (· != ".") := by
    unfold Path.ofText
    cases Path.pieces text with
    | nil => rfl
    | cons first rest =>
      by_cases hfirst : first = "."
      · subst hfirst
        cases Text.startsWith "/" text <;> simp
      · simp [hfirst]
  obtain ⟨front, hfront⟩ := List.getLast?_eq_some_iff.mp hlast
  rw [← hparts, hfront, List.filter_append, List.filter_cons_of_pos (by simpa using hdot)]
  simp

theorem Path.exists_of_extensionOf? {name extension : String}
    (h : Path.extensionOf? name = some extension) :
    ∃ stem, name.toList = stem ++ '.' :: extension.toList := by
  have hwhole := List.takeWhile_append_dropWhile (p := fun c => !(c == '.'))
    (l := name.toList.reverse)
  simp only [Path.extensionOf?, Path.cutName, Text.cutAtLast?] at h
  cases hdrop : name.toList.reverse.dropWhile (fun c => !(c == '.')) with
  | nil => simp [hdrop] at h
  | cons c before =>
    have hc : c = '.' := by
      have hhead := List.head_dropWhile_not (fun c => !(c == '.')) (l := name.toList.reverse)
        (by simp [hdrop])
      simpa [hdrop] using hhead
    rw [hdrop] at h hwhole
    simp only at h
    split_ifs at h
    obtain rfl := Option.some.inj h
    refine ⟨before.reverse, ?_⟩
    calc name.toList
        = (name.toList.reverse.takeWhile (fun c => !(c == '.')) ++ c :: before).reverse := by
          rw [hwhole, List.reverse_reverse]
      _ = _ := by simp [hc]

/-- A path with an extension ends in a dot and the extension, up to slashes and dots. -/
theorem exists_of_extensionAsWritten? {text extension : String}
    (h : extensionAsWritten? text = some extension) :
    ∃ start rest, text.toList = start ++ '.' :: (extension.toList ++ rest) ∧
      ∀ c ∈ rest, c = '/' ∨ c = '.' := by
  obtain ⟨name, hname, hextension⟩ := Option.bind_eq_some_iff.mp h
  obtain ⟨stem, hstem⟩ := Path.exists_of_extensionOf? hextension
  have hlast := Path.getLast?_of_fileName? hname
  rw [Path.pieces, List.filter_filter, Text.split, Text.splitWhere, List.filter_map,
    List.getLast?_map, Option.map_eq_some_iff] at hlast
  obtain ⟨piece, hpiece, rfl⟩ := hlast
  rw [List.getLast?_filter, List.find?_eq_some_iff_append] at hpiece
  obtain ⟨-, after, before, hreverse, hafter⟩ := hpiece
  have hpieces : Text.piecesOf (· == '/') [] text.toList =
      before.reverse ++ piece :: after.reverse := by
    rw [← List.reverse_inj, hreverse]
    simp
  obtain ⟨start, rest, htext, hrest⟩ := Text.exists_after_piece hpieces
  rw [String.toList_ofList] at hstem
  refine ⟨start ++ stem, rest, ?_, fun c hc => (hrest c hc).imp_right ?_⟩
  · rw [List.reverse_nil, List.nil_append] at htext
    simp [htext, hstem]
  · rintro ⟨p, hp, hcp⟩
    have hskipped := hafter p (List.mem_reverse.mp hp)
    obtain hdot | hempty : String.ofList p = "." ∨ String.ofList p = "" := by
      simpa [or_iff_not_imp_left] using hskipped
    · rw [← String.toList_ofList (l := p), hdot] at hcp
      simpa using hcp
    · rw [← String.toList_ofList (l := p), hempty] at hcp
      simp at hcp

end CodeSurvey
