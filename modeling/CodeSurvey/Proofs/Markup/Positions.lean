import CodeSurvey.Proofs.Markup.Written
import CodeSurvey.Proofs.Text.Pieces

/-!
# Where tags stand

Reading markup goes through the text from its start: each event is what stands next after the blanks
at its position, and reading goes on right behind it. So every tag is written in the text at its
position, between angle brackets and with nothing but blanks before it.
-/

namespace CodeSurvey.Markup

/-- The tag that an event opens an element with. -/
def Event.tag? : Event → Option Tag
  | .opened tag => some tag
  | .empty tag => some tag
  | _ => none

/-- The event of a tag that opens an element, with what stands between its brackets. -/
inductive OpensAs : Event → List Char → Prop
  | opened (inside : List Char) : OpensAs (.opened (.ofContent inside)) inside
  | empty (inside : List Char) : OpensAs (.empty (.ofContent inside)) (inside ++ ['/'])

/-- A tag is written in a text at its position, after blanks; `line` is where it begins. -/
def Located.WrittenOn (e : Located) (cs : List Char) (line : Nat) : Prop :=
  ∃ before gap inside after, cs = before ++ (gap ++ '<' :: (inside ++ '>' :: after)) ∧
    Text.byteLength before = e.position ∧ (∀ c ∈ gap, isSpace c = true) ∧
    OpensAs e.event inside ∧ line = Text.lineAfter (before ++ gap)

section Steps

variable {piece : Piece} {opened opened' : List String} {event : Event} {content : List Char}

/-- All but the tags that open an element make events without a tag. -/
theorem tag?_event (hpiece : piece ≠ .opening)
    (h : piece.event opened content = .ok (event, opened')) : event.tag? = none := by
  cases piece with
  | opening => exact absurd rfl hpiece
  | closing =>
    cases opened with
    | nil => cases h
    | cons expected opened =>
      simp only [Piece.event] at h
      split_ifs at h
      all_goals
        cases h
        rfl
  | comment | characterData | documentType | instruction =>
    rw [Piece.event] at h
    split_ifs at h
    cases h
    rfl

theorem opensAs_of_event (h : piece.event opened content = .ok (event, opened'))
    (htag : event.tag?.isSome) : OpensAs event content := by
  by_cases hpiece : piece = .opening
  · subst hpiece
    rw [Piece.event] at h
    split at h
    · next hslash =>
      obtain ⟨front, rfl⟩ := List.getLast?_eq_some_iff.mp hslash
      obtain ⟨rfl, rfl⟩ := Prod.mk.inj (Except.ok.inj h)
      rw [List.dropLast_concat]
      exact .empty front
    · obtain ⟨rfl, rfl⟩ := Prod.mk.inj (Except.ok.inj h)
      exact .opened content
  · rw [tag?_event hpiece h] at htag
    cases htag

theorem exists_of_cut? {read cs rest : List Char} (h : piece.cut? read cs = some (content, rest)) :
    ∃ more, content = read.reverse ++ more ∧ cs = more ++ '>' :: rest := by
  induction cs generalizing read with
  | nil => cases h
  | cons c cs ih =>
    rw [Piece.cut?] at h
    by_cases hend : (c = '>' && piece.endsAfter read) = true
    · rw [if_pos hend] at h
      obtain ⟨rfl, rfl⟩ := Prod.mk.inj (Option.some_inj.mp h)
      obtain rfl : c = '>' := of_decide_eq_true (Bool.and_eq_true_iff.mp hend).1
      exact ⟨[], (List.append_nil _).symm, rfl⟩
    · rw [if_neg hend] at h
      obtain ⟨more, rfl, rfl⟩ := ih h
      exact ⟨c :: more, by simp, rfl⟩

theorem eq_append_of_cut? {cs rest : List Char} (h : piece.cut? [] cs = some (content, rest)) :
    cs = content ++ '>' :: rest := by
  obtain ⟨more, rfl, rfl⟩ := exists_of_cut? h
  rfl

end Steps

/-- Reading meets nothing more, or it meets an event after blanks and goes on behind it. -/
theorem readFrom_cases (opened : List String) (position : Nat) (cs : List Char) :
    (readFrom opened position cs).events = [] ∨
      ∃ gap met after event opened', cs = gap ++ (met ++ after) ∧ met ≠ [] ∧
        (∀ c ∈ gap, isSpace c = true) ∧
        (event.tag?.isSome → ∃ inside, met = '<' :: (inside ++ ['>']) ∧ OpensAs event inside) ∧
        readFrom opened position cs =
          (readFrom opened' (position + Text.byteLength (gap ++ met)) after).after
            ⟨position, event⟩ := by
  have hgap : ∀ c ∈ cs.takeWhile isSpace, isSpace c = true := fun c hc => List.mem_takeWhile_imp hc
  have hsplit := List.takeWhile_append_dropWhile (p := isSpace) (l := cs)
  rw [readFrom]
  split
  · exact .inl rfl
  · next rest hstart =>
    rw [hstart] at hsplit
    cases hpiece : Piece.ofChars rest with
    | error cause => exact .inl rfl
    | ok piece =>
      dsimp only
      split
      · exact .inl rfl
      · next content after hcut =>
        cases hevent : piece.event opened content with
        | error cause => exact .inl rfl
        | ok result =>
          obtain ⟨event, opened'⟩ := result
          refine .inr ⟨cs.takeWhile isSpace, '<' :: (content ++ ['>']), after, event, opened',
            ?_, List.cons_ne_nil _ _, hgap, ?_, ?_⟩
          · rw [eq_append_of_cut? hcut] at hsplit
            simpa using hsplit.symm
          · exact fun htag => ⟨content, rfl, opensAs_of_event hevent htag⟩
          · have hlength : position + Text.byteLength (cs.takeWhile isSpace) + 1 +
                Text.byteLength content + 1 = position +
                Text.byteLength (cs.takeWhile isSpace ++ '<' :: (content ++ ['>'])) := by
              rw [Text.byteLength_append, Text.byteLength_cons, Text.byteLength_append]
              change _ = position + (_ + (1 + (_ + 1)))
              omega
            exact congrArg (fun next => (readFrom opened' next after).after ⟨position, event⟩)
              hlength
  · next first rest hne hstart =>
    rw [hstart] at hsplit
    have hlength : position + Text.byteLength (cs.takeWhile isSpace) +
        Text.byteLength (first :: rest.takeWhile (· != '<')) = position +
        Text.byteLength (cs.takeWhile isSpace ++ first :: rest.takeWhile (· != '<')) := by
      rw [Text.byteLength_append, Nat.add_assoc]
    refine .inr ⟨cs.takeWhile isSpace, first :: rest.takeWhile (· != '<'),
      rest.dropWhile (· != '<'), .text _, opened, ?_, List.cons_ne_nil _ _, hgap,
      fun htag => absurd htag Bool.false_ne_true, congrArg (fun next =>
        (readFrom opened next (rest.dropWhile (· != '<'))).after ⟨position, _⟩) hlength⟩
    rw [List.cons_append, List.takeWhile_append_dropWhile, hsplit]

/-- Every tag that is read is written at its position. -/
theorem writtenOn_of_mem_readFrom {opened : List String} (before : List Char) {cs : List Char}
    {e : Located}
    (he : e ∈ (readFrom opened (Text.byteLength before) cs).events) (htag : e.event.tag?.isSome) :
    ∃ line, e.WrittenOn (before ++ cs) line := by
  induction hn : cs.length using Nat.strong_induction_on generalizing opened before cs with
  | _ n ih =>
    rcases readFrom_cases opened (Text.byteLength before) cs with
      hnone | ⟨gap, met, after, event, opened', rfl, hmet, hgap, hopens, hread⟩
    · rw [hnone] at he
      cases he
    · rw [hread] at he
      rcases List.mem_cons.mp he with rfl | hlater
      · obtain ⟨inside, rfl, hinside⟩ := hopens htag
        exact ⟨_, before, gap, inside, after, by simp, rfl, hgap, hinside, rfl⟩
      · rw [← Text.byteLength_append] at hlater
        have hshorter : after.length < n := by
          have := List.length_pos_iff.mpr hmet
          rw [← hn, List.length_append, List.length_append]
          omega
        obtain ⟨line, hline⟩ := ih after.length hshorter _ hlater rfl
        refine ⟨line, ?_⟩
        simpa using hline

/-- In a text without a byte order mark every tag is written at its position. -/
theorem writtenOn_of_mem_read {content : String} (hmark : content.toList.head? ≠ some '\ufeff')
    {e : Located} (he : e ∈ (read content).events) (htag : e.event.tag?.isSome) :
    ∃ line, e.WrittenOn content.toList line := by
  have hchars : Text.withoutMark content.toList = content.toList := by
    cases hcontent : content.toList with
    | nil => rfl
    | cons c cs =>
      rw [hcontent] at hmark
      exact if_neg fun hc => hmark (congrArg some hc)
  rw [read, hchars] at he
  obtain ⟨line, hline⟩ := writtenOn_of_mem_readFrom [] he htag
  exact ⟨line, hline⟩

end CodeSurvey.Markup
