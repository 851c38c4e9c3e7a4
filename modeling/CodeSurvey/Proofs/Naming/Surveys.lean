import CodeSurvey.Proofs.Naming.Lines
import CodeSurvey.Proofs.Naming.Trees

/-!
# The names in surveys of five languages

C#, TypeScript and Python sources are surveyed by their syntax trees, Visual Basic and Dart sources by
their lines. In all of them the name of an element follows from where it stands: a type gives its own
name to what is declared inside of it. The one exception are types that have the path of the file for
their name, which are taken for the file.
-/

namespace CodeSurvey

/-- The languages in which types own their members. -/
inductive Language where
  /-- A language whose syntax trees are explored. -/
  | explored (walker : Walker)
  | visualBasic
  | dart
  deriving Repr, DecidableEq

namespace Language

def survey (settings : Settings) (fs : FileSystem) (source : Source) : Language → Report
  | explored walker => walker.survey settings fs source
  | visualBasic => VisualBasic.survey settings fs source
  | dart => Dart.survey settings fs source

/-- Where the declarations of a source in the language stand. -/
def layout (source : Source) : Language → Layout
  | explored walker => walker.layout source
  | visualBasic => VisualBasic.layout source
  | dart => Dart.layout source

/-- In every survey the elements other than the file are the declarations of the source in the order
of its layout, whatever the path is and however they are nested. What no type is around is called by
its plain name. Anything else is called by the name of the innermost type around it, a dot and its plain
name, except where that type has the path for its name: then the plain name stands alone. -/
theorem named_after_innermost_type (language : Language) (settings : Settings) (fs : FileSystem)
    (source : Source) :
    (language.layout source).Names source.path (language.survey settings fs source) := by
  cases language with
  | explored walker => exact walker.names_survey settings fs source
  | visualBasic => exact VisualBasic.names_survey settings fs source
  | dart => exact Dart.names_survey settings fs source

/-- A method in a type whose qualified name is the path of the file. -/
def shadowedSource : Source where
  path := "Billing.vb"
  content := "Class Billing\n  Structure vb\n    Sub Pay()\n    End Sub\n  End Structure\nEnd Class\n"

/-- The method is not named after the type that it is in. -/
theorem unqualified_in_shadowed_type :
    (visualBasic.survey {} {} shadowedSource).members.map (fun e => (e.name, e.lineNumber)) =
      [("Billing", 1), ("Billing.vb", 2), ("Pay", 3)] := by
  decide +kernel

end Language

end CodeSurvey
