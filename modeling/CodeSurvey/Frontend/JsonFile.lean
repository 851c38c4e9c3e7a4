import CodeSurvey.Code.QuotedName
import CodeSurvey.Frontend.Basic
import CodeSurvey.Json.Reader

/-!
# JSON files

A JSON file is kept as a whole; only the keys of its outermost object become elements.
-/

namespace CodeSurvey.JsonFile

/-- The keys of the outermost object; a document of another kind has none. -/
def topKeys (document : Option Json) : List String :=
  ((document.bind Json.fields?).getD []).map (·.1)

def keyDeclaration (source key : String) : Declaration where
  kind := .property
  name := key
  lineNumber := (Code.lineOfQuoted source key 0).1
  tags := ["json_key"]

def facts (path source : String) (document : Option Json) : List Fact :=
  (topKeys document).map fun key => .declare path (keyDeclaration source key)

def survey (settings : Settings) (fs : FileSystem) (source : Source) : Report :=
  let place := source.place settings fs
  let report := Report.opening place source.content "JSON"
  if source.cancelled then report.fail (.cancelled source.path)
  else
    let document := Json.parse? source.content
    let report := report.updateFile fun d =>
      (d.note "valid_json" (.bool document.isSome)).note "top_level_keys"
        (.strings (topKeys document))
    report.recordAll place (facts source.path source.content document)

def frontend (settings : Settings) : Frontend where
  language := "JSON"
  extensions := ["json"]
  capability := .basic
  survey fs source := .ok (survey settings fs source)

end CodeSurvey.JsonFile
