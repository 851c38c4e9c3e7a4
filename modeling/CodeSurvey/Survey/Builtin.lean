import CodeSurvey.Frontend.Arm
import CodeSurvey.Frontend.Bicep
import CodeSurvey.Frontend.CSharp
import CodeSurvey.Frontend.Dart
import CodeSurvey.Frontend.JsonFile
import CodeSurvey.Frontend.Project
import CodeSurvey.Frontend.Python
import CodeSurvey.Frontend.Terraform
import CodeSurvey.Frontend.TypeScript
import CodeSurvey.Frontend.VisualBasic
import CodeSurvey.Survey.Registry

/-!
# The built-in front ends
-/

namespace CodeSurvey.Registry

/-- The registry with all built-in front ends. A JSON file is tried as a template first. -/
def builtin (settings : Settings) : Registry :=
  let texts := [
    CSharp.frontend settings, VisualBasic.frontend settings, TypeScript.frontend settings,
    Python.frontend settings, Dart.frontend settings, Terraform.frontend settings,
    Bicep.frontend settings, Arm.frontend settings]
  ((texts.foldl register {}).registerFallback (JsonFile.frontend settings)).registerOnDisk
    (Project.frontend settings)

end CodeSurvey.Registry
