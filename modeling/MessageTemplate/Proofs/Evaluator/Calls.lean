import MessageTemplate.Evaluator.Basic

/-! # Questions to an evaluator

An evaluator is asked to render a source or to resolve a collection. Its answers may depend on its
state; those of a fixed evaluator do not. A recording evaluator also keeps what it is asked. -/

namespace MessageTemplate

/-- A question that an evaluator is asked. -/
inductive Call where
  | render (source : String)
  | resolve (expression : String)
  deriving DecidableEq, Repr

namespace Evaluator

variable {σ : Type}

/-- Whatever its state, the evaluator gives a source, and a collection, the same answer. -/
structure Fixed (evaluator : Evaluator σ) (data : Json) : Prop where
  render : ∀ source first second,
    (evaluator.render source data first).1 = (evaluator.render source data second).1
  resolve : ∀ expression first second,
    (evaluator.resolveCollection expression data first).1 =
      (evaluator.resolveCollection expression data second).1

/-- The evaluator with a record of the questions, the last one first. -/
def recording (evaluator : Evaluator σ) : Evaluator (σ × List Call) where
  render source data := fun (state, calls) =>
    let (answer, next) := evaluator.render source data state
    (answer, next, .render source :: calls)
  check source := fun (state, calls) =>
    let (answer, next) := evaluator.check source state
    (answer, next, calls)
  resolveCollection expression data := fun (state, calls) =>
    let (answer, next) := evaluator.resolveCollection expression data state
    (answer, next, .resolve expression :: calls)

end Evaluator

end MessageTemplate
