import MessageTemplate.Document.Preparation
import MessageTemplate.Schema.OfJson
import MessageTemplate.Settings.Error
import MessageTemplate.Log.Error

/-! # Why there is no preview -/

namespace MessageTemplate

/-- Why there is no preview: the settings or the schema are refused, the evaluator fails, a document
cannot be prepared, or the log cannot be set up. -/
inductive PreviewError where
  | settings (cause : SettingsError)
  | schema (cause : SchemaError)
  | evaluator (cause : EvaluatorError)
  | preparation (cause : PreparationError)
  | log (cause : LogError)

namespace PreviewError

/-- The wording of an error. -/
def message : PreviewError → String
  | settings cause => "Configuration error: " ++ cause.message
  | schema cause => "Schema error: " ++ cause.message
  | evaluator cause => "Evaluator error: " ++ cause.message
  | preparation cause => "Rich document error: " ++ cause.message
  | log cause => "Telemetry error: " ++ cause.message

/-- Whether nothing can be shown after the error. -/
def isFatal : PreviewError → Bool
  | settings _ => false
  | schema _ => true
  | evaluator _ => true
  | preparation _ => true
  | log _ => false

end PreviewError

end MessageTemplate
