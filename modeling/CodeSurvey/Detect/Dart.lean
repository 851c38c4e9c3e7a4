import CodeSurvey.Detect.Bank
import CodeSurvey.Detect.Secret

/-!
# Practices in Dart sources
-/

namespace CodeSurvey.Detect.Dart

open Regex in
/-- A widget with state of its own; group 1 is its name. -/
def statefulHead : Regex :=
  all [lit "class", gap, group 1 (plus word), gap, lit "extends", gap, lit "StatefulWidget", edge]

open Regex in
def stateChange : Regex :=
  all [edge, lit "setState", blanks, lit "("]

def statefulWidget : Rule where
  name := "Dart_StatefulWidget"
  topic := .stateManagement
  category := .architecture
  guards := ["StatefulWidget"]
  scan scene :=
    let changes := (stateChange.findAll scene.source).length
    (scene.matchesOf statefulHead).map fun (line, m) =>
      { spot := .line line
        implementation :=
          m.group 1 ++ " keeps local widget state (" ++ Decimal.digitText changes ++
            " setState calls in file)"
        metadata := [("widget", .str (m.group 1)), ("set_state_calls", .nat changes)] }
  advice := "Keep widget-local state small; lift shared state into a state management solution"
  reference := fun _ => "https://docs.flutter.dev/data-and-backend/state-mgmt/intro"
  confidence := 85

open Regex in
/-- A provider of dependencies; group 1 is the mechanism. -/
def providerUse : Regex :=
  all [
    edge,
    group 1 (any [
      lit "ChangeNotifierProvider", lit "MultiProvider", lit "ProviderScope",
      lit "StateNotifierProvider", lit "NotifierProvider", lit "FutureProvider",
      lit "StreamProvider", all [lit "GetIt.", oneOf ["instance", "I"]]]),
    edge]

def providerInjection : Rule where
  name := "Dart_ProviderDependencyInjection"
  topic := .dependencyInjection
  category := .architecture
  guards := ["Provider", "GetIt"]
  scan scene := (scene.matchesOf providerUse).map fun (line, m) =>
    { spot := .line line
      implementation := "Dependencies provided through " ++ m.group 1
      metadata := [("mechanism", .str (m.group 1))] }
  advice := "Expose dependencies through providers instead of global singletons"
  reference := fun _ => "https://riverpod.dev/docs/introduction/why_riverpod"
  confidence := 80

open Regex in
def printLine : Regex :=
  all [lineStart, indent, lit "print", blanks, lit "("]

def debugPrint : Rule where
  name := "Dart_DebugPrint"
  topic := .logging
  category := .operations
  guards := ["print("]
  scan scene := (scene.matchesOf printLine).map fun (line, _) =>
    { spot := .line line, implementation := "print() used for diagnostics" }
  advice := "Use a logging package or debugPrint guarded by kDebugMode"
  reference := fun _ => "https://dart.dev/tools/linter-rules/avoid_print"
  confidence := 70
  positive := false

def bank : Bank := .ofRules "dart" [
  statefulWidget, providerInjection, debugPrint, hardcodedSecret "Dart_HardcodedSecret"]

end CodeSurvey.Detect.Dart
