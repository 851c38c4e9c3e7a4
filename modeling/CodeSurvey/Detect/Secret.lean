import CodeSurvey.Detect.Rule

/-!
# Secrets in source code

A name that sounds like a secret and is given a text of eight characters or more is taken for a
secret written into the source, unless the text is a reference or a placeholder.
-/

namespace CodeSurvey.Detect

open Regex in
/-- The assignment of a text to a name that sounds like a secret; group 1 is the name, group 2 the
text. -/
def secretAssignment : Regex :=
  all [
    edge,
    group 1 (all [
      many (set (.anyCase (.anyOf [.range 'a' 'z', .digit, .one '_']))),
      any [
        litAnyCase "password", litAnyCase "passwd", litAnyCase "pwd", litAnyCase "secret",
        all [litAnyCase "api", opt (set (.chars "_-")), litAnyCase "key"],
        all [litAnyCase "access", opt (set (.chars "_-")), litAnyCase "key"],
        litAnyCase "token",
        all [litAnyCase "connection", opt (set (.chars "_-")), litAnyCase "string"]],
      many (set (.anyCase (.anyOf [.range 'a' 'z', .digit, .one '_'])))]),
    opt (set (.chars "\"'")), blanks, oneOf [":=", "=", ":"], blanks, opt (lit "@"),
    set (.chars "\"'"), group 2 (atLeast 8 (set (.noneOf [.blank, .chars "\"'"]))),
    set (.chars "\"'")]

/-- Whether a text is a reference or a placeholder. -/
def isPlaceholder (value : String) : Bool :=
  let lower := Text.lowerAscii value
  Text.containsAny ["$\x7b", "\x7b\x7b"] value ||
    ["<", "[parameters(", "[variables("].any (Text.startsWith · value) ||
    Text.startsWith "keyvault" lower ||
    Text.containsAny ["placeholder", "changeme", "your_", "your-", "xxxx"] lower

def hardcodedSecret (name : String) : Rule where
  name := name
  topic := .security
  category := .security
  guards := [
    "password", "Password", "PASSWORD", "secret", "Secret", "SECRET", "apikey", "ApiKey", "api_key",
    "API_KEY", "apiKey", "token", "Token", "TOKEN", "ConnectionString", "connectionString",
    "connection_string", "AccessKey", "access_key", "accessKey"]
  scan scene :=
    ((scene.matchesOf secretAssignment).filter fun (_, m) => !isPlaceholder (m.group 2)).map
      fun (line, m) =>
        { spot := .line line
          implementation := "Hardcoded secret assigned to '" ++ m.group 1 ++ "'"
          metadata := [("key", .str (m.group 1))] }
  advice :=
    "Load secrets from a secret store or environment configuration instead of source code"
  reference := fun _ => "https://learn.microsoft.com/azure/key-vault/general/best-practices"
  confidence := 75
  positive := false

end CodeSurvey.Detect
