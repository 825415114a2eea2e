import MessageTemplate.Document.Preparation

/-! # Preparing a document step by step

The work on a document is cut into steps. Each step takes one entry off a list: an address off the
queue, or the first of the children that are pending while the children of a node are replaced. Either
list may grow in the same step. The work is over when the queue has run out, or when a collection
cannot be resolved. -/

namespace MessageTemplate.Document

/-- Where the work on a document stands: at its queue of addresses; at the children of the node with an
address, some of which are pending while others have been replaced; or at a collection that cannot be
resolved. -/
inductive Stage where
  | queued (document : Node) (queue : List Address)
  | replacing (document : Node) (address : Address) (queue : List Address) (node : Node)
      (pending rebuilt : List Node)
  | failed (cause : PreparationError)

section Steps

variable {σ : Type} (evaluator : Evaluator σ) (data : Json)

/-- Takes the first of the pending children: it is dropped if it is hidden, its copies become pending if
it is repeated, and else it is kept. Gives the children that are pending then and those that stand for
the ones before them. -/
def takeChild (child : Node) (rest rebuilt : List Node) : Preparing σ (List Node × List Node) := do
  if ← child.isShown evaluator data then
    match child.withoutCondition.each? with
    | none => return (rest, rebuilt ++ [child.withoutCondition])
    | some each =>
      let size ← sizeOfCollection evaluator data (bareExpression each)
      return (child.withoutCondition.expand (bareExpression each) size ++ rest, rebuilt)
  else return (rest, rebuilt)

namespace Stage

/-- Takes an address off the queue: the node there becomes a text if it is a variable, and its children
become pending if it has content. -/
def visit (document : Node) (address : Address) (queue : List Address) : Stage :=
  match document.at? address with
  | none => queued document queue
  | some node =>
    match node.flatten.content with
    | none => queued (document.replaceAt address node.flatten) queue
    | some children => replacing document address queue node.flatten children []

/-- Puts a node whose children have been replaced back in its place, and queues its children. -/
def leave (document : Node) (address : Address) (queue : List Address) (node : Node) : Stage :=
  queued (document.replaceAt address node) (queue ++ node.childAddresses address)

/-- What comes of some work: a stage that is made of its result, or a failure. -/
def ofOutcome {α : Type} (made : α → Stage) : Except PreparationError α → Stage
  | .ok result => made result
  | .error cause => failed cause

/-- One step. When the work is over nothing happens any more. -/
def step : Stage → StateM (Session σ) Stage
  | queued document [] => pure (queued document [])
  | queued document (address :: queue) => pure (visit document address queue)
  | replacing document address queue node [] rebuilt =>
    pure (leave document address queue (node.withContent rebuilt))
  | replacing document address queue node (child :: rest) rebuilt => do
    let outcome ← (takeChild evaluator data child rest rebuilt).run
    return ofOutcome (fun (pending, rebuilt) =>
      replacing document address queue node pending rebuilt) outcome
  | failed cause => pure (failed cause)

/-- A number of steps. -/
def steps : Nat → Stage → StateM (Session σ) Stage
  | 0, stage => pure stage
  | count + 1, stage => do steps count (← stage.step evaluator data)

/-- From a stage, a number of steps does some work: they lead to what is made of its result or to its
failure, and to the session after it. -/
def Does {α : Type} (stage : Stage) (work : Preparing σ α) (made : α → Stage) : Prop :=
  ∀ session, ∃ count, stage.steps evaluator data count session =
    (ofOutcome made (work session).1, (work session).2)

/-- Whether a stage may come next, whoever is asked and whatever the answers are. -/
def MayLead (stage next : Stage) : Prop :=
  ∃ (σ : Type) (evaluator : Evaluator σ) (data : Json) (session : Session σ),
    (stage.step evaluator data session).1 = next

/-- Whether the queue has run out or the work has failed. -/
def isOver : Stage → Bool
  | queued _ [] => true
  | queued _ (_ :: _) => false
  | replacing .. => false
  | failed _ => true

end Stage

end Steps

end MessageTemplate.Document
