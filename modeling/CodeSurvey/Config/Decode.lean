import CodeSurvey.Config.Settings
import CodeSurvey.Json.Decode

/-!
# Settings as data

Settings are given by sections, each of which may be missing or hold only some of its entries. What
is missing keeps its default; what is there has to be of the right type. A section may also list its
entries in order, and `surplus` says whether more than those may follow.
-/

namespace CodeSurvey

def RouterSettings.ofJson? (surplus : Json.Surplus) (value : Json) : Option RouterSettings := do
  let fields ← value.record? surplus
    ["unstructured_content_cap", "max_file_size", "temp_file_prefix"]
  let dflt : RouterSettings := {}
  some {
    unstructuredCap := ← fields.orElse "unstructured_content_cap" Json.nat? dflt.unstructuredCap
    maxFileSize := ← fields.orElse "max_file_size" Json.nat? dflt.maxFileSize
    tempFileStart := ← fields.orElse "temp_file_prefix" Json.text? dflt.tempFileStart }

def ContextSettings.ofJson? (surplus : Json.Surplus) (value : Json) : Option ContextSettings := do
  let fields ← value.record? surplus ["source_root_dirs", "project_markers"]
  let dflt : ContextSettings := {}
  some {
    sourceRoots := ← fields.orElse "source_root_dirs" Json.texts? dflt.sourceRoots
    markers := ← fields.orElse "project_markers" Json.texts? dflt.markers }

def DetectorSettings.ofJson? (surplus : Json.Surplus) (value : Json) : Option DetectorSettings := do
  let fields ← value.record? surplus ["snippet_context_lines", "disabled"]
  let dflt : DetectorSettings := {}
  some {
    margin := ← fields.orElse "snippet_context_lines" Json.nat? dflt.margin
    disabled := ← fields.orElse "disabled" Json.texts? dflt.disabled }

def ScanSettings.ofJson? (surplus : Json.Surplus) (value : Json) : Option ScanSettings := do
  let fields ← value.record? surplus ["exclude_dirs", "include_hidden", "concurrency"]
  let dflt : ScanSettings := {}
  some {
    excludedDirs := ← fields.orElse "exclude_dirs" Json.texts? dflt.excludedDirs
    includeHidden := ← fields.orElse "include_hidden" Json.bool? dflt.includeHidden
    concurrency := ← fields.orElse "concurrency" Json.nat? dflt.concurrency }

namespace Settings

def ofJson? (surplus : Json.Surplus) (value : Json) : Option Settings := do
  let fields ← value.record? surplus ["router", "context", "detectors", "scan"]
  some {
    router := ← fields.orElse "router" (RouterSettings.ofJson? surplus) {}
    context := ← fields.orElse "context" (ContextSettings.ofJson? surplus) {}
    detectors := ← fields.orElse "detectors" (DetectorSettings.ofJson? surplus) {}
    scan := ← fields.orElse "scan" (ScanSettings.ofJson? surplus) {} }

def toJson (s : Settings) : Json :=
  .ofFields [
    ("router", .ofFields [
      ("unstructured_content_cap", .nat s.router.unstructuredCap),
      ("max_file_size", .nat s.router.maxFileSize),
      ("temp_file_prefix", .str s.router.tempFileStart)]),
    ("context", .ofFields [
      ("source_root_dirs", .strings s.context.sourceRoots),
      ("project_markers", .strings s.context.markers)]),
    ("detectors", .ofFields [
      ("snippet_context_lines", .nat s.detectors.margin),
      ("disabled", .strings s.detectors.disabled)]),
    ("scan", .ofFields [
      ("exclude_dirs", .strings s.scan.excludedDirs),
      ("include_hidden", .bool s.scan.includeHidden),
      ("concurrency", .nat s.scan.concurrency)])]

end Settings

end CodeSurvey
