import MessageTemplate.Engine.Compiler
import MessageTemplate.Engine.Filter
import MessageTemplate.Engine.Rendering
import MessageTemplate.Evaluator.Cache

/-! # The engine as a template language -/

namespace MessageTemplate.Engine

/-- The variables that a JSON value declares: none for null, and the members of an object that
can be values. -/
def globals? : Json → Option (Keyed Value)
  | .null => some []
  | value =>
    match Value.ofJson? value with
    | some (.object members) => some members
    | _ => none

/-- The language that the engine reads and renders. -/
def language : TemplateLanguage (List Instruction) where
  read source := (compile source).mapError (Fault.message Filter.names)
  render instructions data :=
    match globals? data with
    | some members => (render instructions members).mapError fun e => .render e.message
    | none => .error (.badVariables "an object is expected")

/-- The engine's evaluator, with a cache of some capacity. -/
def evaluator (capacity : Nat) : Evaluator (TemplateCache (List Instruction)) :=
  language.evaluator capacity

end MessageTemplate.Engine
