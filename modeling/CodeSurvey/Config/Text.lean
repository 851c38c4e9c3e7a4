import CodeSurvey.Config.Settings
import CodeSurvey.Json.Printer

/-!
# Settings as the text of a file

Each section has its header and a line for every entry; the items of a list stand on lines of their
own.
-/

namespace CodeSurvey.Settings

inductive EntryValue where
  | number (n : Nat)
  | flag (b : Bool)
  | text (s : String)
  | texts (ss : List String)
  deriving Repr, DecidableEq

def EntryValue.render : EntryValue → String
  | number n => Decimal.digitText n
  | flag b => if b then "true" else "false"
  | text s => Json.quote s
  | texts [] => "[]"
  | texts ss => "[\n" ++ String.join (ss.map fun s => "    " ++ Json.quote s ++ ",\n") ++ "]"

def renderSection (title : String) (entries : List (String × EntryValue)) : String :=
  "[" ++ title ++ "]\n" ++ String.join (entries.map fun e => e.1 ++ " = " ++ e.2.render ++ "\n")

def render (s : Settings) : String :=
  String.intercalate "\n" [
    renderSection "router" [
      ("unstructured_content_cap", .number s.router.unstructuredCap),
      ("max_file_size", .number s.router.maxFileSize),
      ("temp_file_prefix", .text s.router.tempFileStart)],
    renderSection "context" [
      ("source_root_dirs", .texts s.context.sourceRoots),
      ("project_markers", .texts s.context.markers)],
    renderSection "detectors" [
      ("snippet_context_lines", .number s.detectors.margin),
      ("disabled", .texts s.detectors.disabled)],
    renderSection "scan" [
      ("exclude_dirs", .texts s.scan.excludedDirs),
      ("include_hidden", .flag s.scan.includeHidden),
      ("concurrency", .number s.scan.concurrency)]]

end CodeSurvey.Settings
