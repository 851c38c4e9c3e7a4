import CodeSurvey.Config.Decode
import CodeSurvey.Files.FileSystem
import CodeSurvey.Toml.Reader

/-!
# Where settings come from

Settings are read from the file of the project, else from that of the user, else they are the
defaults. The environment comes before all of them, and what comes out has to be valid.
-/

namespace CodeSurvey

/-- What a setting has to be. -/
inductive Requirement where
  | capPositive
  | concurrencyPositive
  deriving Repr, DecidableEq

def Requirement.message : Requirement → String
  | capPositive => "router.unstructured_content_cap must be greater than zero"
  | concurrencyPositive => "scan.concurrency must be greater than zero"

inductive SettingsFault where
  | unreadable (reason : ReadFault)
  | malformed
  | invalid (requirement : Requirement)
  deriving Repr, DecidableEq

def SettingsFault.message : SettingsFault → String
  | unreadable reason => "Failed to read config file: " ++ reason.message
  | malformed => "Failed to parse config file"
  | invalid requirement => "Invalid configuration: " ++ requirement.message

/-- The settings found in the environment, as they are written there. -/
structure Environment where
  unstructuredCap : Option String := none
  maxFileSize : Option String := none
  margin : Option String := none
  disabled : Option String := none
  deriving Repr, DecidableEq

/-- A number of 64 bits: decimal digits, with a plus sign or without. -/
def wordNumber? (text : String) : Option Nat :=
  let digits := (Text.withoutStart "+" text).toList
  let n := numberOfDigits 10 digits
  if digits.isEmpty || !digits.all Char.isDigit || 18446744073709551615 < n then none else some n

/-- The names between commas, without blanks around them and empty ones. -/
def namesIn (text : String) : List String :=
  ((Text.split ',' text).map Text.trim).filter (!·.isEmpty)

/-- The number that the environment gives, or the one that was there. -/
def Environment.number (given : Option String) (was : Nat) : Nat := (given.bind wordNumber?).getD was

namespace Settings

/-- Settings with those of the environment in place of others. What is no number does not count. -/
def override (s : Settings) (e : Environment) : Settings :=
  { s with
    router := { s.router with
      unstructuredCap := Environment.number e.unstructuredCap s.router.unstructuredCap
      maxFileSize := Environment.number e.maxFileSize s.router.maxFileSize }
    detectors := { s.detectors with
      margin := Environment.number e.margin s.detectors.margin
      disabled := (e.disabled.map namesIn).getD s.detectors.disabled } }

/-- Settings that are valid, or the first requirement that they do not meet. -/
def validate (s : Settings) : Except SettingsFault Settings :=
  if s.router.unstructuredCap = 0 then .error (.invalid .capPositive)
  else if s.scan.concurrency = 0 then .error (.invalid .concurrencyPositive)
  else .ok s

/-- Settings from the text of a file. A section may list more than its entries there. -/
def ofText (text : String) : Except SettingsFault Settings :=
  match (Toml.parse? text).bind fun document => Settings.ofJson? .ignored document.toJson with
  | some s => .ok s
  | none => .error .malformed

/-- Settings from a file and the environment; a file that does not exist has no text. -/
def ofFile (file : Option String) (e : Environment) : Except SettingsFault Settings := do
  match file with
  | none => .error (.unreadable .missing)
  | some text => ((← ofText text).override e).validate

def load (project user : Option String) (e : Environment) : Except SettingsFault Settings :=
  match project, user with
  | some text, _ => ofFile (some text) e
  | none, some text => ofFile (some text) e
  | none, none => (override {} e).validate

end Settings

end CodeSurvey
