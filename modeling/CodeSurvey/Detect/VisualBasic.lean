import CodeSurvey.Detect.Bank
import CodeSurvey.Detect.Secret

/-!
# Practices in Visual Basic sources
-/

namespace CodeSurvey.Detect.VisualBasic

open Regex in
/-- A registration with the service container; group 1 is the call, group 2 the services. -/
def registration : Regex :=
  all [
    lit ".", group 1 (oneOfAnyCase ["AddSingleton", "AddScoped", "AddTransient"]), blanks,
    opt (all [lit "(", blanks, litAnyCase "Of", gap, group 2 (plus (set (.notChars ")"))), lit ")"]),
    blanks, lit "("]

def dependencyRegistration : Rule where
  name := "VB_DependencyInjectionRegistration"
  topic := .dependencyInjection
  category := .architecture
  guards := ["AddSingleton", "AddScoped", "AddTransient"]
  scan scene := (scene.matchesOf registration).map fun (line, m) =>
    let lifetime := m.group 1
    { spot := .line line
      implementation := "Service registered via " ++ lifetime
      metadata := [
        ("lifetime", .str (Text.withoutStarts "Add" lifetime)),
        ("services", .str (Text.trim (m.group 2)))] }
  advice := "Register abstractions with the narrowest lifetime that is correct for the service"
  reference := fun _ => "https://learn.microsoft.com/dotnet/core/extensions/dependency-injection"
  confidence := 90

open Regex in
/-- The statement that goes on after any error. -/
def resumeNext : Regex :=
  all [
    lineStart, blanks, litAnyCase "On", gap, litAnyCase "Error", gap, litAnyCase "Resume", gap,
    litAnyCase "Next", edge]

def onErrorResumeNext : Rule where
  name := "VB_OnErrorResumeNext"
  topic := .errorHandling
  category := .reliability
  guards := ["Resume Next", "resume next", "RESUME NEXT"]
  scan scene := (scene.matchesOf resumeNext).map fun (line, _) =>
    { spot := .line line
      implementation := "On Error Resume Next suppresses every runtime error" }
  advice := "Use structured Try/Catch blocks and handle specific exceptions"
  reference := fun _ =>
    "https://learn.microsoft.com/dotnet/visual-basic/language-reference/statements/try-catch-finally-statement"
  confidence := 95
  positive := false

def bank : Bank := .ofRules "vbnet" [
  dependencyRegistration, onErrorResumeNext, hardcodedSecret "VB_HardcodedSecret"]

end CodeSurvey.Detect.VisualBasic
