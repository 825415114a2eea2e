import MessageTemplate.Document.Preparation

/-! # Preparing a document branch by branch

The plain recursion: the children of a node are replaced, and then each of those that stand there
now is prepared with all that is below it. The evaluator is asked in another order than level by
level. -/

namespace MessageTemplate.Document

variable {σ : Type} (evaluator : Evaluator σ) (data : Json)

/-- A pair is smaller in the lexicographic order if its first part is not larger and its second
part is smaller. -/
theorem lexLt_of_le_of_lt {a b c d : Nat} (first : a ≤ b) (second : c < d) :
    Prod.Lex (· < ·) (· < ·) (a, c) (b, d) := by
  rcases Nat.lt_or_eq_of_le first with less | rfl
  · exact Prod.Lex.left _ _ less
  · exact Prod.Lex.right _ second

mutual

/-- What a child is replaced by: nothing if it is hidden; for a repeated node the replacements of
its copies; else the child itself, without its show condition. -/
def replaceChild (child : Node) : Preparing σ (List Node) := do
  if ← child.isShown evaluator data then
    match child.withoutCondition.each? with
    | none => return [child.withoutCondition]
    | some each =>
      let size ← sizeOfCollection evaluator data (bareExpression each)
      replaceChildren (child.withoutCondition.expand (bareExpression each) size)
  else return []
termination_by (child.height, 0)
decreasing_by
  apply Prod.Lex.left
  rw [← child.height_withoutCondition]
  exact Node.heights_expand_lt _ _ _

/-- What some children are replaced by. -/
def replaceChildren (children : List Node) : Preparing σ (List Node) := do
  match children with
  | [] => return []
  | child :: rest =>
    let first ← replaceChild child
    let others ← replaceChildren rest
    return first ++ others
termination_by (heights children, children.length)
decreasing_by
  · exact lexLt_of_le_of_lt (Nat.le_max_left _ _) (Nat.succ_pos _)
  · exact lexLt_of_le_of_lt (Nat.le_max_right _ _) (Nat.lt_succ_self _)

end

theorem replaceChildren_append (left right : List Node) :
    replaceChildren evaluator data (left ++ right) = do
      let first ← replaceChildren evaluator data left
      let others ← replaceChildren evaluator data right
      return first ++ others := by
  induction left with
  | nil => simp [replaceChildren]
  | cons child rest ih =>
    simp only [List.cons_append, replaceChildren, ih, bind_assoc, pure_bind, List.append_assoc]

/-- Replacing children from a list that copies are put back on gives what each of them is replaced
by, with the same questions in the same order. -/
theorem rebuild_eq_replaceChildren (pending rebuilt : List Node) :
    rebuild evaluator data pending rebuilt = do
      return rebuilt ++ (← replaceChildren evaluator data pending) := by
  fun_induction rebuild evaluator data pending rebuilt with
  | case1 rebuilt => simp [replaceChildren]
  | case2 rebuilt child rest keep expand drop =>
    rw [replaceChildren, replaceChild, bind_assoc, bind_assoc]
    refine bind_congr fun shown => ?_
    cases shown with
    | false => simp [drop]
    | true =>
      simp only [↓reduceIte]
      cases child.withoutCondition.each? with
      | none => simp [keep]
      | some each => simp [expand each, replaceChildren_append]

theorem rebuild_nil (children : List Node) :
    rebuild evaluator data children [] = replaceChildren evaluator data children := by
  simp only [rebuild_eq_replaceChildren, List.nil_append, bind_pure]

theorem ensures_replaceChildren (children : List Node) :
    (replaceChildren evaluator data children).Ensures
      fun replaced => heights replaced ≤ heights children := by
  rw [← rebuild_nil]
  exact ensures_rebuild evaluator data children [] (Nat.le_refl _) (Nat.zero_le _)

/-- Prepares a node and all that is below it. -/
def prepareBranchwise (node : Node) : Preparing σ Node := do
  match _h : node.flatten.content with
  | none => return node.flatten
  | some children =>
    let ⟨replaced, _lower⟩ ← (replaceChildren evaluator data children).certified _
      (ensures_replaceChildren evaluator data children)
    let prepared ← replaced.attach.mapM fun child => prepareBranchwise child.1
    return { node.flatten with content := some prepared }
termination_by node.height
decreasing_by
  have whole : node.height = heights children + 1 := by
    rw [← node.height_flatten, Node.height_eq, Node.children, _h]
    rfl
  rw [whole]
  exact Nat.lt_succ_of_le (Nat.le_trans (height_le_heights child.2) _lower)

end MessageTemplate.Document
