import CodeSurvey.Regex.Search
import CodeSurvey.Text.Search

/-!
# Call sites in a piece of code

A call site is a name directly before an opening parenthesis, with type arguments between them if
any, and the dotted receiver before it if there is one. The construction of an object with `new` is
no call.
-/

namespace CodeSurvey.Code

/-- A call: the name called and what it is called on. -/
structure Call where
  callee : String
  receiver : Option String
  deriving Repr, DecidableEq

open Regex in
/-- A call site; group 1 is the receiver, group 2 the callee. -/
def callSite : Regex :=
  all [
    opt (all [group 1 (all [set .nameStart, many (set (.anyOf [.word, .one '.']))]), blanks, lit ".",
      blanks]),
    edge, group 2 (all [set .nameStart, many word]), blanks,
    opt (all [lit "<", many (set (.anyOf [.word, .blank, .chars ",.<>?"])), lit ">"]), blanks,
    lit "("]

/-- The call sites of a piece of code, without the names to pass over in any case of letters. -/
def calls (ignored : List String) (code : String) : List Call :=
  (callSite.findAll code).filterMap fun m =>
    let callee := m.group 2
    let before := Text.trimEnd (Text.take m.start code)
    if ignored.any (Text.sameIgnoringCase callee) then none
    else if Text.endsWith "new" before || Text.endsWith "New" before then none
    else some ⟨callee, m.group? 1⟩

end CodeSurvey.Code
