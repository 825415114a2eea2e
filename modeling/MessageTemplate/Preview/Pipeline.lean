import MessageTemplate.Analysis.Analyzer
import MessageTemplate.Document.Codec
import MessageTemplate.Filter.Rules
import MessageTemplate.Preview.Error
import MessageTemplate.Settings.Basic

/-! # Previews

The content of a message is a template or a rich document. Its variables are found and judged,
example data is made for them, and the content is rendered against the data. A document is
analyzed as the text it has once its attributes have been made outputs, and is prepared before it
is rendered. -/

namespace MessageTemplate

open Analysis Document

/-- How content is understood. -/
inductive ContentKind where
  | text
  | document
  deriving DecidableEq, Repr

/-- The type of the root of a document. -/
def documentRoot : String := "doc"

/-- The document that content stands for: an object whose type is that of a root. Any other
content is a template. -/
def decodeDocument? (content : String) : Option Document.Node :=
  if (Text.trimStart content.toList).head? = some '\x7b' then
    (Document.Node.parse? content).filter fun node => node.kind = documentRoot
  else none

/-- The variables of some content and example data for the valid ones. -/
structure ContentAnalysis where
  kind : ContentKind
  report : Report
  data : Json

/-- A preview: the variables, the example data, and the rendered content or why there is none. -/
structure Preview where
  report : Report
  data : Json
  rendered : String
  renderError : Option String

/-- Nothing to show. -/
def Preview.empty : Preview := ⟨.empty, .null, "", none⟩

/-- What previews are made with. -/
structure Pipeline (σ : Type) where
  evaluator : Evaluator σ
  filters : Filter.Registry
  settings : PreviewSettings
  now : String

namespace Pipeline

/-- The pipeline with the known filters. -/
def ofEvaluator {σ : Type} (evaluator : Evaluator σ) (settings : PreviewSettings)
    (now : String) : Pipeline σ :=
  ⟨evaluator, .defaults, settings, now⟩

variable {σ : Type} (pipeline : Pipeline σ)

/-- The analyzer for a schema. -/
def analyzer (schema : Option Schema) : Analyzer :=
  ⟨schema, pipeline.filters, pipeline.settings.analysisOptions⟩

/-- What example data is made by. -/
def builder : Example.Builder :=
  pipeline.settings.exampleBuilder pipeline.now

/-- A document with its dynamic attributes made outputs. -/
def withOutputs (document : Document.Node) : Document.Node :=
  wrapOutputs pipeline.settings.phraseNamespace document

/-- The template text that content is analyzed as. -/
def analyzedText (content : String) : String :=
  match decodeDocument? content with
  | some document => (pipeline.withOutputs document).serialize
  | none => content

/-- What content tells about its data. Only documents tell anything. -/
def hints (content : String) : Hints :=
  match decodeDocument? content with
  | some document => hintsOf document pipeline.settings.digestEvents
  | none => .empty

/-- Asks the evaluator whether it accepts a template. -/
def check (source : String) : StateM (Session σ) (Except String Unit) := do
  return (← Session.ask (pipeline.evaluator.check source)).mapError EvaluatorError.message

/-- Analyzes a template and counts what has been found. -/
def report (schema : Option Schema) (source : String) : StateM (Session σ) Report := do
  let outcome ← (pipeline.analyzer schema).analyzeChecked pipeline.check source
  if outcome.fault.isSome then Session.count .syntaxError
  Session.count (.found outcome.report.valid.length outcome.report.invalid.length)
  return outcome.report

/-- Finds the variables of some content and makes example data for the valid ones. -/
def analyze (schema : Option Schema) (content : String) :
    StateM (Session σ) ContentAnalysis := do
  let report ← pipeline.report schema (pipeline.analyzedText content)
  let hints := pipeline.hints content
  return {
    kind := if (decodeDocument? content).isSome then .document else .text
    report := report
    data := pipeline.builder.build report.validNames hints.arrays hints.flags }

/-- A document as it is rendered: outputs put in, hidden nodes left out, and repeated nodes
replaced by copies of their content. -/
def transform (data : Json) (document : Document.Node) :
    StateM (Session σ) (Except PreviewError Document.Node) := do
  let prepared ← (prepare pipeline.evaluator data (pipeline.withOutputs document)).run
  return prepared.mapError .preparation

/-- The text that content is rendered as. -/
def renderedText (data : Json) (content : String) :
    StateM (Session σ) (Except PreviewError String) := do
  match decodeDocument? content with
  | some document => return (← pipeline.transform data document).map Document.Node.serialize
  | none => return .ok content

/-- Renders content. -/
def render (data : Json) (content : String) :
    StateM (Session σ) (Except PreviewError String) := do
  match ← pipeline.renderedText data content with
  | .ok source =>
    return (← Session.ask (pipeline.evaluator.render source data)).mapError .evaluator
  | .error e => return .error e

/-- The variables that a preview is rendered against: the example data, with stand-ins for the
invalid variables. -/
def previewVariables (analysis : ContentAnalysis) : Json :=
  pipeline.builder.withStandIns analysis.data analysis.report.invalidNames

/-- Analyzes content and renders it against the example data. Where the evaluator fails the
preview tells why; an error is left only where a document cannot be prepared. -/
def preview (schema : Option Schema) (content : String) :
    StateM (Session σ) (Except PreviewError Preview) := do
  let analysis ← pipeline.analyze schema content
  match ← pipeline.render (pipeline.previewVariables analysis) content with
  | .ok rendered =>
    Session.count .preview
    return .ok ⟨analysis.report, analysis.data, rendered, none⟩
  | .error (.evaluator cause) =>
    Session.count .preview
    return .ok ⟨analysis.report, analysis.data, "", some cause.message⟩
  | .error e => return .error e

/-- The preview of some content, or nothing to show. -/
def previewOrEmpty (schema : Option Schema) (content : String) : StateM (Session σ) Preview := do
  return match ← pipeline.preview schema content with
    | .ok preview => preview
    | .error _ => .empty

end Pipeline

end MessageTemplate
