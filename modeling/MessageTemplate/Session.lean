import MessageTemplate.Evaluator.Basic
import MessageTemplate.Metrics.Counters

/-! # Sessions

What goes from one step of a preview to the next: the state of the evaluator and the counts. -/

namespace MessageTemplate

/-- The state of an evaluator and what has been counted. -/
structure Session (σ : Type) where
  evaluator : σ
  counters : Counters

namespace Session

variable {σ α : Type}

/-- Asks the evaluator. -/
def ask (question : StateM σ α) : StateM (Session σ) α := fun session =>
  let (answer, next) := question session.evaluator
  (answer, { session with evaluator := next })

/-- Counts an event. -/
def count (event : Event) : StateM (Session σ) Unit :=
  modify fun session => { session with counters := session.counters.count event }

end Session

end MessageTemplate
