import CodeSurvey.Config.Load
import CodeSurvey.Config.Text
import CodeSurvey.Proofs.Route.Schedule
import CodeSurvey.Proofs.Typing.Injection
import CodeSurvey.Proofs.Context.Resolution
import CodeSurvey.Proofs.Context.Attribution
import CodeSurvey.Proofs.Route.Contexts
import CodeSurvey.Proofs.Python.SyntaxErrors
import CodeSurvey.Proofs.Project.Malformed
import CodeSurvey.Proofs.Project.Imports
import CodeSurvey.Proofs.Detect.Windows
import CodeSurvey.Proofs.Arm.SecureDefaults
import CodeSurvey.Proofs.Detect.Secrets
import CodeSurvey.Proofs.Detect.ResumeNext
import CodeSurvey.Proofs.Dart.Bodies
import CodeSurvey.Proofs.Bicep.Interpolation
import CodeSurvey.Proofs.Bicep.Attachment
import CodeSurvey.Proofs.VisualBasic.ClassBodies
import CodeSurvey.Proofs.Terraform.References
import CodeSurvey.Proofs.Arm.Dependencies
import CodeSurvey.Proofs.Arm.Locations
import CodeSurvey.Proofs.Json.KeyTokens
import CodeSurvey.Proofs.TypeScript.Decorators
import CodeSurvey.Proofs.Code.Walked
import CodeSurvey.Proofs.Code.Blocks
