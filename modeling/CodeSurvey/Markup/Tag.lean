import CodeSurvey.Markup.Entity
import CodeSurvey.Text.Search

/-!
# Tags and their attributes

A tag is a name and what follows it. Attributes are read one after the other. A malformed one is
passed over. So is one that repeats a name, but only up to the next blank: what its quotes hold after
that is read as attributes.
-/

namespace CodeSurvey.Markup

def isSpace (c : Char) : Bool := c == ' ' || c == '\t' || c == '\n' || c == '\r'

/-- A tag: its name and the text after it. -/
structure Tag where
  name : String
  rest : List Char
  deriving Repr, DecidableEq

def Tag.ofContent (content : List Char) : Tag :=
  ⟨String.ofList (content.takeWhile (!isSpace ·)), content.dropWhile (!isSpace ·)⟩

/-- A name without what stands before its first colon. -/
def localPart (name : String) : String :=
  match name.toList.dropWhile (· != ':') with
  | [] => name
  | _ :: rest => String.ofList rest

/-- What stands after the equals sign of an attribute: the value if it is well quoted, and the text
after it. -/
structure Assigned where
  value : Option String
  rest : List Char

/-- Reads the value of an attribute. One without quotes ends at the next blank, and one without its
closing quote takes the rest. -/
def readValue (cs : List Char) : Assigned :=
  match cs.dropWhile isSpace with
  | [] => ⟨none, []⟩
  | quote :: rest =>
    if quote = '"' || quote = '\'' then
      match rest.dropWhile (· != quote) with
      | [] => ⟨none, []⟩
      | _ :: after => ⟨some (String.ofList (rest.takeWhile (· != quote))), after⟩
    else ⟨none, rest.dropWhile (!isSpace ·)⟩

theorem length_dropWhile_le (p : Char → Bool) (cs : List Char) :
    (cs.dropWhile p).length ≤ cs.length :=
  (List.dropWhile_sublist p).length_le

theorem length_rest_readValue_le (cs : List Char) : (readValue cs).rest.length ≤ cs.length := by
  have h := length_dropWhile_le isSpace cs
  unfold readValue
  cases hs : cs.dropWhile isSpace with
  | nil => simp
  | cons quote rest =>
    rw [hs] at h
    simp only [List.length_cons] at h
    by_cases hq : quote = '"' || quote = '\''
    · have hd := length_dropWhile_le (· != quote) rest
      cases ha : rest.dropWhile (· != quote) with
      | nil => simp [hq, ha]
      | cons c after =>
        rw [ha] at hd
        simp only [List.length_cons] at hd
        simp only [hq, if_true, ha]
        omega
    · have hd := length_dropWhile_le (fun c => !isSpace c) rest
      simp only [hq, Bool.false_eq_true, if_false]
      omega

/-- What is read at the start of a text: a name that an equals sign follows, or a name without one;
`rest` is what follows. -/
structure Keyed where
  key : String
  assigned : Bool
  rest : List Char

/-- Reads the name of an attribute that starts with a character. -/
def readKey (first : Char) (cs : List Char) : Keyed :=
  let isKeyChar (c : Char) : Bool := c != '=' && !isSpace c
  let key := String.ofList (first :: cs.takeWhile isKeyChar)
  match (cs.dropWhile isKeyChar).dropWhile isSpace with
  | '=' :: rest => ⟨key, true, rest⟩
  | rest => ⟨key, false, rest⟩

theorem length_rest_readKey_le (first : Char) (cs : List Char) :
    (readKey first cs).rest.length ≤ cs.length := by
  have h1 := length_dropWhile_le (fun c => c != '=' && !isSpace c) cs
  have h2 := length_dropWhile_le isSpace (cs.dropWhile fun c => c != '=' && !isSpace c)
  unfold readKey
  simp only
  split
  · rename_i rest hr
    rw [hr] at h2
    simp only [List.length_cons] at h2
    simp only
    omega
  · simp only
    omega

/-- The well-formed attributes of a text in order, with their values as written; `seen` are the
names met before. After a name met before, reading goes on at the next blank. -/
def attributesFrom (seen : List String) (cs : List Char) : List (String × String) :=
  match _start : cs.dropWhile isSpace with
  | [] => []
  | first :: rest =>
    let k := readKey first rest
    if !k.assigned then attributesFrom seen k.rest
    else if seen.contains k.key then attributesFrom seen (k.rest.dropWhile (!isSpace ·))
    else
      let v := readValue k.rest
      match v.value with
      | some value => (k.key, value) :: attributesFrom (k.key :: seen) v.rest
      | none => attributesFrom (k.key :: seen) v.rest
termination_by cs.length
decreasing_by
  all_goals
    have hs := length_dropWhile_le isSpace cs
    rw [_start] at hs
    simp only [List.length_cons] at hs
    have hk := length_rest_readKey_le first rest
    have hd := length_dropWhile_le (fun c => !isSpace c) (readKey first rest).rest
    have hv := length_rest_readValue_le (readKey first rest).rest
    omega

def Tag.attributes (t : Tag) : List (String × String) := attributesFrom [] t.rest

/-- The value of the first attribute with a name, its references replaced; none also where one of
them cannot be. -/
def Tag.attribute? (t : Tag) (name : String) : Option String :=
  (t.attributes.find? fun a => localPart a.1 = name).bind fun a => (unescape a.2).toOption

end CodeSurvey.Markup
