import CodeSurvey.Detect.Bank

/-!
# Practices in project files
-/

namespace CodeSurvey.Detect.Project

open Regex in
/-- A reference to a package; group 1 is its attributes, group 3 what stands within it. -/
def packageReference : Regex :=
  all [
    lit "<PackageReference", edge, group 1 (manyLazy (set (.notChars ">"))),
    group 2 (any [
      lit "/>",
      all [lit ">", group 3 (manyLazy (set .always)), lit "</PackageReference>"]])]

open Regex in
/-- The attribute that names a package; group 1 is the name. -/
def packageName : Regex :=
  all [
    edge, oneOf ["Include", "Update"], blanks, lit "=", blanks, lit "\"",
    group 1 (plus (set (.notChars "\""))), lit "\""]

open Regex in
/-- The frameworks a project is built for; group 2 lists them. -/
def targetFramework : Regex :=
  all [
    lit "<",
    group 1 (any [all [lit "TargetFramework", opt (lit "s")], lit "TargetFrameworkVersion"]),
    lit ">", blanks, group 2 (plusLazy (set (.notChars "<"))), blanks, lit "</"]

def unversionedPackage : Rule where
  name := "Project_UnversionedPackage"
  topic := .dependencies
  category := .reliability
  guards := ["<PackageReference"]
  scan scene :=
    let loose := (scene.matchesOf packageReference).filter fun (_, m) =>
      !(Text.contains "Version" (m.group 1) || Text.contains "<Version" (m.group 3))
    loose.filterMap fun (line, m) =>
      (packageName.find? (m.group 1)).map fun name =>
        let package := name.group 1
        { spot := .line line
          implementation := "Package '" ++ package ++ "' referenced without a version"
          metadata := [("package", .str package)] }
  advice := "Pin package versions, or manage them centrally in Directory.Packages.props"
  reference := fun _ =>
    "https://learn.microsoft.com/nuget/consume-packages/package-references-in-project-files"
  confidence := 75
  positive := false

/-- Whether support for a framework has ended. -/
def isLegacy (moniker : String) : Bool :=
  let moniker := Text.lowerAscii (Text.trim moniker)
  ["net2", "net3", "net4", "v2", "v3", "v4", "netcoreapp", "netstandard1", "net5.0", "net6.0",
    "net7.0"].any (Text.startsWith · moniker)

def legacyFramework : Rule where
  name := "Project_LegacyTargetFramework"
  topic := .dependencies
  category := .maintainability
  guards := ["<TargetFramework"]
  scan scene := (scene.matchesOf targetFramework).flatMap fun (line, m) =>
    let monikers := (Text.split ';' (m.group 2)).map Text.trim
    (monikers.filter isLegacy).map fun moniker =>
      { spot := .line line
        implementation := "Targets out-of-support framework " ++ moniker
        metadata := [("framework", .str moniker)] }
  advice := "Move to a supported .NET LTS release"
  reference := fun _ => "https://dotnet.microsoft.com/platform/support/policy/dotnet-core"
  confidence := 80
  positive := false

def bank : Bank := .ofRules "project" [unversionedPackage, legacyFramework]

end CodeSurvey.Detect.Project
