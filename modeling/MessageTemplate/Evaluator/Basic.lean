import MessageTemplate.Json.Reader
import MessageTemplate.Text.Basic

/-! # Evaluators

An evaluator renders template text against data. It may keep a state from one call to the
next, such as a cache of what it has read. -/

namespace MessageTemplate

/-- Why an evaluator fails: the template or the variables are not accepted, rendering fails, or an
expression does not give a collection. -/
inductive EvaluatorError where
  | parse (message : String)
  | render (message : String)
  | badVariables (message : String)
  | notAnArray (expression : String)
  | undecodable (expression : String)
  deriving DecidableEq, Repr

/-- The wording of an error. -/
def EvaluatorError.message : EvaluatorError → String
  | parse message => "Template parse error: " ++ message
  | render message => "Template render error: " ++ message
  | badVariables message => "Invalid render variables: " ++ message
  | notAnArray expression => "Expression '" ++ expression ++ "' did not resolve to an array"
  | undecodable expression =>
    "Expression '" ++ expression ++ "' rendered undecodable output: the text is not JSON"

namespace Evaluator

/-- The output that renders an expression as JSON. -/
def collectionSource (expression : String) : String :=
  "\x7b\x7b " ++ expression ++ " | json \x7d\x7d"

/-- The elements that a rendered collection stands for. -/
def decodeCollection (expression rendered : String) : Except EvaluatorError (List Json) :=
  match Json.read? (Text.trimmed rendered) with
  | some (.array items) => .ok items
  | some _ => .error (.notAnArray expression)
  | none => .error (.undecodable expression)

/-- The elements of a collection, read from what an output of it as JSON is rendered to. -/
def resolveByRendering {σ : Type}
    (render : String → Json → StateM σ (Except EvaluatorError String)) (expression : String)
    (data : Json) : StateM σ (Except EvaluatorError (List Json)) := do
  match ← render (collectionSource expression) data with
  | .ok rendered => return decodeCollection expression rendered
  | .error e => return .error e

end Evaluator

/-- An evaluator with a state: how it renders a template, whether it accepts one, and the elements
of the collection that an expression denotes. -/
structure Evaluator (σ : Type) where
  render : (source : String) → (data : Json) → StateM σ (Except EvaluatorError String)
  check : (source : String) → StateM σ (Except EvaluatorError Unit)
  resolveCollection : (expression : String) → (data : Json) →
      StateM σ (Except EvaluatorError (List Json)) := Evaluator.resolveByRendering render

namespace Evaluator

/-- An evaluator that gives each source a fixed answer, accepts every source, and records the
sources that it has rendered, the last one first. -/
def scripted (answer : String → Except EvaluatorError String) : Evaluator (List String) where
  render source _ := fun asked => (answer source, source :: asked)
  check _ := pure (.ok ())

end Evaluator

end MessageTemplate
