import CodeSurvey.Json.Printer

/-!
# Failures

What can go wrong while a file is surveyed. A failure ends up in the report as its message. A crash
is how a detector or a front end gives up halfway, with a text or without one.
-/

namespace CodeSurvey

/-- Why a file, or a part of its survey, could not be done. -/
inductive Failure where
  | unreadable (path reason : String)
  | badSyntax (path : String) (line : Nat) (message : String)
  | unavailable (message : String)
  | cancelled (path : String)
  | detector (name message : String)
  deriving Repr, DecidableEq

def Failure.message : Failure → String
  | unreadable path reason => "IO error at " ++ path ++ ": " ++ reason
  | badSyntax path line message =>
    "Syntax error in " ++ path ++ " at line " ++ Decimal.digitText line ++ ": " ++ message
  | unavailable message => "Parser error: " ++ message
  | cancelled path => "Parsing cancelled for " ++ path
  | detector name message => "Detector " ++ name ++ " failed: " ++ message

/-- How a step gives up halfway. -/
inductive Crash where
  | saying (message : String)
  | silent
  deriving Repr, DecidableEq

def Crash.message : Crash → String
  | saying message => message
  | silent => "unknown panic"

end CodeSurvey
