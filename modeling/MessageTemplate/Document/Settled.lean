import MessageTemplate.Document.Node

/-! # Documents with nothing left to prepare

A document is settled if no node in it is a variable and no node below its root has a show
condition or is repeated. The nodes in question are those that are reached through content; marks
do not count. -/

namespace MessageTemplate.Document

mutual

/-- The nodes below a node that are reached through content, in the order of the document. -/
def Node.descendants : Node → List Node
  | ⟨_, _, _, content, _, _⟩ =>
    match content with
    | none => []
    | some children => descendantsOfAll children

/-- Some nodes, each followed by the nodes below it. -/
def descendantsOfAll : List Node → List Node
  | [] => []
  | node :: rest => node :: (node.descendants ++ descendantsOfAll rest)

end

namespace Node

/-- A node and the nodes below it. -/
def reachable (node : Node) : List Node := node :: node.descendants

/-- Whether a node needs no evaluator: it has neither a show condition nor a collection. -/
def isUnconditional (node : Node) : Bool :=
  node.showCondition?.isNone && node.each?.isNone

/-- Whether nothing is left to prepare. -/
def isSettled (node : Node) : Bool :=
  node.reachable.all (fun found => found.classify ≠ .variableMark) &&
    node.descendants.all isUnconditional

end Node

end MessageTemplate.Document
