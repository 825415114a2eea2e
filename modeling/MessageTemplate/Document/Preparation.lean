import MessageTemplate.Document.Backlog
import MessageTemplate.Document.Question

/-! # Preparing a document for rendering

Variables become texts, hidden nodes are dropped, and repeated nodes are replaced by copies of
their content, one for each element of their collection. Nodes are worked on in the order of a
queue of addresses. Once the children of a node have been replaced, their addresses are put at the
end of the queue, so that the evaluator is asked about all nodes of a level before any node of the
next. -/

namespace MessageTemplate.Document

/-- The copies of a child nest less deeply than the child they stand for. -/
theorem shrinks_expand (child : Node) (each : String) (size : Nat) (rest : List Node) :
    Backlog.Shrinks ⟨(child.withoutCondition.expand each size ++ rest).map Node.height⟩
      ⟨(child :: rest).map Node.height⟩ := by
  rw [List.map_append]
  refine Backlog.shrinks_stack fun height member => ?_
  obtain ⟨copy, present, rfl⟩ := List.mem_map.mp member
  rw [← child.height_withoutCondition]
  exact Nat.lt_of_le_of_lt (height_le_heights present) (Node.heights_expand_lt _ _ _)

/-- There is less room below the children of a node than below the node. -/
theorem shrinks_childAddresses {bound : Nat} {address : Address} (inside : address.length < bound)
    (node : Node) (queue : List Address) :
    Backlog.Shrinks ⟨(queue ++ node.childAddresses address).map (bound - ·.length)⟩
      ⟨(address :: queue).map (bound - ·.length)⟩ := by
  rw [List.map_append]
  refine Backlog.shrinks_queue fun room member => ?_
  obtain ⟨child, present, rfl⟩ := List.mem_map.mp member
  obtain ⟨position, _, rfl⟩ := List.mem_map.mp present
  simp only [List.length_append, List.length_singleton]
  omega

variable {σ : Type} (evaluator : Evaluator σ) (data : Json)

/-- Replaces the children that are pending, the first one first, and keeps what stands for those
before them. A hidden child is dropped. The copies of a repeated one are put in front of the
pending children and are children like any other. -/
def rebuild (pending rebuilt : List Node) : Preparing σ (List Node) := do
  match pending with
  | [] => return rebuilt
  | child :: rest =>
    if ← child.isShown evaluator data then
      match child.withoutCondition.each? with
      | none => rebuild rest (rebuilt ++ [child.withoutCondition])
      | some each =>
        let size ← sizeOfCollection evaluator data (bareExpression each)
        rebuild (child.withoutCondition.expand (bareExpression each) size ++ rest) rebuilt
    else rebuild rest rebuilt
termination_by Backlog.mk (pending.map Node.height)
decreasing_by
  · exact Backlog.shrinks_tail _ _
  · exact shrinks_expand _ _ _ _
  · exact Backlog.shrinks_tail _ _

/-- Works on one node: a variable becomes a text, and the children are replaced. -/
def openNode (node : Node) : Preparing σ Node := do
  match node.flatten.content with
  | none => return node.flatten
  | some children => return { node.flatten with content := some (← rebuild evaluator data children []) }

/-- What children are replaced by nests no deeper than they do. -/
theorem ensures_rebuild {bound : Nat} (pending rebuilt : List Node)
    (pendingLow : heights pending ≤ bound) (rebuiltLow : heights rebuilt ≤ bound) :
    (rebuild evaluator data pending rebuilt).Ensures fun nodes => heights nodes ≤ bound := by
  fun_induction rebuild evaluator data pending rebuilt with
  | case1 => exact .pure rebuiltLow
  | case2 rebuilt child rest keep expand drop =>
    have childLow : child.withoutCondition.height ≤ bound := by
      rw [child.height_withoutCondition]
      exact Nat.le_trans (Nat.le_max_left _ _) pendingLow
    have restLow : heights rest ≤ bound := Nat.le_trans (Nat.le_max_right _ _) pendingLow
    refine (Preparing.Ensures.trivial _).bind fun shown _ => ?_
    cases shown with
    | false => exact drop restLow rebuiltLow
    | true =>
      simp only [↓reduceIte]
      split
      · refine keep restLow ?_
        rw [heights_append]
        exact Nat.max_le.mpr ⟨rebuiltLow, by simpa [heights] using childLow⟩
      · next each _ =>
        refine (Preparing.Ensures.trivial _).bind fun size _ => expand each size ?_ rebuiltLow
        have copiesLow :=
          Nat.le_of_lt (child.withoutCondition.heights_expand_lt (bareExpression each) size)
        rw [heights_append]
        exact Nat.max_le.mpr ⟨Nat.le_trans copiesLow childLow, restLow⟩

/-- A node that has been worked on nests no deeper than before. -/
theorem ensures_openNode (node : Node) :
    (openNode evaluator data node).Ensures fun opened => opened.height ≤ node.height := by
  unfold openNode
  split
  · exact .pure (Nat.le_of_eq node.height_flatten)
  · next children present =>
    have low : heights children ≤ node.flatten.height - 1 := by
      rw [Node.height_eq, Node.children, present]
      exact Nat.le_refl _
    refine (ensures_rebuild evaluator data children [] low (Nat.zero_le _)).bind
      fun rebuilt rebuiltLow => .pure ?_
    have := Node.height_eq node.flatten
    have := node.height_flatten
    rw [Node.height_eq]
    change heights rebuilt + 1 ≤ _
    omega

/-- Works on the nodes of a document whose addresses are queued, and on all that come to be below
them. An address without a node is passed over. The document never nests deeper than its bound,
so that an address has at most that length. -/
def walk {bound : Nat} (document : Node) (low : document.height ≤ bound) (queue : List Address) :
    Preparing σ Node := do
  match queue with
  | [] => return document
  | address :: queue =>
    match found : document.at? address with
    | none => walk document low queue
    | some node =>
      let ⟨opened, lower⟩ ← (openNode evaluator data node).certified _
        (ensures_openNode evaluator data node)
      walk (document.replaceAt address opened)
        (Nat.le_trans (Node.height_replaceAt found lower) low)
        (queue ++ opened.childAddresses address)
termination_by Backlog.mk (queue.map (bound - ·.length))
decreasing_by
  · exact Backlog.shrinks_tail _ _
  · refine shrinks_childAddresses ?_ _ _
    have inside := Node.height_at? found
    have positive := node.height_eq
    omega

/-- Prepares a document for rendering. -/
def prepare (document : Node) : Preparing σ Node :=
  walk evaluator data document (Nat.le_refl _) [[]]

end MessageTemplate.Document
