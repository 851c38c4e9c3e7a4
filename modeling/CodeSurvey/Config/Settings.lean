/-!
# Settings

What a user may set, with the defaults. Advice, references and confidences of the rules are fixed.
-/

namespace CodeSurvey

structure RouterSettings where
  /-- Characters kept of a file that no front end knows. -/
  unstructuredCap : Nat := 5000
  /-- Bytes above which a file is not given to a front end. -/
  maxFileSize : Nat := 2097152
  /-- How the names of temporary files begin. -/
  tempFileStart : String := "patternscan-"
  deriving Repr, DecidableEq

structure ContextSettings where
  /-- Names of directories whose subdirectories are contexts. -/
  sourceRoots : List String :=
    ["src", "source", "sources", "lib", "app", "apps", "packages", "projects", "services", "modules"]
  /-- Names of files that mark a directory as a context; `*.` stands for any name with an extension. -/
  markers : List String :=
    ["*.csproj", "*.vbproj", "*.fsproj", "*.sln", "package.json", "pyproject.toml", "setup.py",
      "setup.cfg", "pubspec.yaml", "main.tf", "main.bicep", "azuredeploy.json", "go.mod"]
  deriving Repr, DecidableEq

structure DetectorSettings where
  /-- Lines shown on both sides of a finding. -/
  margin : Nat := 3
  /-- Names of the detectors left out. -/
  disabled : List String := []
  deriving Repr, DecidableEq

structure ScanSettings where
  excludedDirs : List String :=
    [".git", ".svn", ".hg", "node_modules", "vendor", "venv", ".venv", "__pycache__", ".dart_tool",
      "target", "build", "dist", "out", "bin", "obj", ".terraform", ".idea", ".vscode", ".vs"]
  includeHidden : Bool := false
  /-- Number of files surveyed at a time. -/
  concurrency : Nat := 8
  deriving Repr, DecidableEq

structure Settings where
  router : RouterSettings := {}
  context : ContextSettings := {}
  detectors : DetectorSettings := {}
  scan : ScanSettings := {}
  deriving Repr, DecidableEq

end CodeSurvey
