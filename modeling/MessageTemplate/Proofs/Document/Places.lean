import MessageTemplate.Document.Nesting
import MessageTemplate.Proofs.Document.Settled
import MessageTemplate.Proofs.Document.Walk

/-! # What stands in the place of a node

Prepared branch by branch, children come to one thing after the other (`Outcomes.below_append`). If a
child comes to the same as some other nodes, then a document comes to the same with these in its place
(`Outcomes.prepared_replaces`), and so it does level by level (`prepare_replaces`). -/

namespace MessageTemplate.Document

open Preparing

variable {σ M : Type} [CommMonoid M] {evaluator : Evaluator σ} {data : Json} {log : σ → M}

/-- The outcomes of all work on a document. -/
structure Outcomes (evaluator : Evaluator σ) (data : Json) (log : σ → M) where
  shown : Node → Outcome M Bool
  replaced : List Node → Outcome M (List Node)
  prepared : Node → Outcome M Node
  shows : ∀ node, ComesTo log (liftM (node.isShown evaluator data)) (shown node)
  replaces : ∀ children, ComesTo log (replaceChildren evaluator data children) (replaced children)
  prepares : ∀ node, ComesTo log (prepareBranchwise evaluator data node) (prepared node)

theorem Node.each?_withoutCondition (node : Node) : node.withoutCondition.each? = node.each? := by
  have differs : eachKey ≠ showKey := by decide
  rw [withoutCondition]
  split
  · cases given : node.attrs <;>
      simp [each?, strAttr?, attr?, removeAttr, given, Keyed.get?_erase_of_ne _ differs]
  · rfl

theorem Node.content_withoutCondition (node : Node) :
    node.withoutCondition.content = node.content := by
  rw [withoutCondition]
  split <;> rfl

theorem Node.withoutCondition_withContent (node : Node) (children : List Node) :
    (node.withContent children).withoutCondition = node.withoutCondition.withContent children := by
  have same : (node.withContent children).showCondition? = node.showCondition? := rfl
  rw [withoutCondition, withoutCondition, same]
  split <;> rfl

theorem Node.flatten_withContent (node : Node) (children : List Node) :
    (node.withContent children).flatten = node.flatten.withContent children := by
  have same : (node.withContent children).isVariable = node.isVariable := rfl
  rw [flatten, flatten, same]
  split <;> rfl

/-- Other nodes below a node leave its attributes as they are. -/
theorem Replaces.attrs_eq {one document replacement : Node} {others : List Node}
    (place : Replaces one others document replacement) : replacement.attrs = document.attrs := by
  cases place <;> rfl

theorem replaceChild_of_single {child : Node} (single : child.each? = none) :
    replaceChild evaluator data child = do
      if ← child.isShown evaluator data then return [child.withoutCondition] else return [] := by
  rw [replaceChild]
  refine bind_congr fun shown => ?_
  cases shown with
  | false => rfl
  | true =>
    simp only [↓reduceIte]
    split
    · rfl
    · next given => cases (child.each?_withoutCondition.trans single).symm.trans given

namespace Outcomes

theorem nonempty [Nonempty σ] {weight : Call → M} (logs : Logs evaluator data log weight) :
    Nonempty (Outcomes evaluator data log) := by
  have replacing : ∀ children, ∃ outcome,
      ComesTo log (replaceChildren evaluator data children) outcome := fun children => by
    rw [← rebuild_nil]
    exact exists_comesTo_rebuild logs children []
  choose shown shows using exists_comesTo_isShown logs
  choose replaced replaces using replacing
  choose prepared prepares using exists_comesTo_prepareBranchwise logs
  exact ⟨⟨shown, replaced, prepared, shows, replaces, prepares⟩⟩

/-- What some children come to: what they are replaced by, prepared. -/
def below (outcomes : Outcomes evaluator data log) (children : List Node) : Outcome M (List Node) :=
  outcomes.replaced children >>= List.mapM outcomes.prepared

variable [IsCancelMul M] [Nonempty σ] (outcomes : Outcomes evaluator data log)

theorem replaced_append (left right : List Node) :
    outcomes.replaced (left ++ right) = do
      let first ← outcomes.replaced left
      let others ← outcomes.replaced right
      return first ++ others := by
  refine (outcomes.replaces (left ++ right)).unique ?_
  rw [replaceChildren_append]
  exact (outcomes.replaces left).bind fun _ => (outcomes.replaces right).bind fun _ => .pure _

/-- Children come to the same one after the other. -/
theorem below_append (left right : List Node) :
    outcomes.below (left ++ right) = do
      let first ← outcomes.below left
      let others ← outcomes.below right
      return first ++ others := by
  simp only [below, replaced_append, List.mapM_append, bind_assoc, pure_bind]
  refine bind_congr fun first => ?_
  exact Outcome.bind_comm (outcomes.replaced right) (first.mapM outcomes.prepared) _

/-- Children that come to the same may take each other's place among others. -/
theorem below_congr {one other : List Node} (same : outcomes.below one = outcomes.below other)
    (before after : List Node) :
    outcomes.below (before ++ one ++ after) = outcomes.below (before ++ other ++ after) := by
  simp only [below_append, same]

theorem prepared_of_content {node : Node} {children : List Node}
    (content : node.content = some children) :
    outcomes.prepared node = do
      let prepared ← outcomes.below children
      return node.flatten.withContent prepared := by
  refine (outcomes.prepares node).unique ?_
  have present : node.flatten.content = some children := by
    rw [← content, Node.flatten]
    split <;> rfl
  rw [prepareBranchwise_eq, openNode_of_content evaluator data present]
  simp only [below, bind_assoc, pure_bind]
  refine (outcomes.replaces children).bind fun replaced => ?_
  exact (ComesTo.mapM fun child _ => outcomes.prepares child).bind fun _ => .pure _

/-- With other children that come to the same a node comes to the same, also without its show
condition. -/
theorem prepared_withContent {node : Node} {children others : List Node}
    (content : node.content = some children)
    (same : outcomes.below children = outcomes.below others) :
    outcomes.prepared node = outcomes.prepared (node.withContent others) ∧
      outcomes.prepared node.withoutCondition =
        outcomes.prepared (node.withContent others).withoutCondition := by
  have always {node : Node} (content : node.content = some children) :
      outcomes.prepared node = outcomes.prepared (node.withContent others) := by
    rw [outcomes.prepared_of_content content, outcomes.prepared_of_content rfl, same,
      Node.flatten_withContent]
    rfl
  refine ⟨always content, ?_⟩
  rw [Node.withoutCondition_withContent]
  exact always (node.content_withoutCondition.trans content)

/-- A child that is not repeated comes to nothing or to itself, prepared. -/
theorem below_of_single {child : Node} (single : child.each? = none) :
    outcomes.below [child] = do
      if ← outcomes.shown child then
        let prepared ← outcomes.prepared child.withoutCondition
        return [prepared]
      else return [] := by
  have replaced : outcomes.replaced [child] = do
      if ← outcomes.shown child then return [child.withoutCondition] else return [] := by
    refine (outcomes.replaces [child]).unique ?_
    simp only [replaceChildren, pure_bind, List.append_nil, bind_pure,
      replaceChild_of_single single]
    refine (outcomes.shows child).bind fun shown => ?_
    cases shown with
    | false => exact .pure []
    | true => exact .pure [child.withoutCondition]
  rw [below, replaced, bind_assoc]
  refine bind_congr fun shown => ?_
  cases shown <;> simp

/-- Nodes with the same attributes are shown alike. -/
theorem shown_congr {left right : Node} (same : left.attrs = right.attrs) :
    outcomes.shown left = outcomes.shown right := by
  refine (outcomes.shows left).unique ?_
  have alike : left.isShown evaluator data = right.isShown evaluator data := by
    simp only [Node.isShown, Node.showCondition?, Node.strAttr?, Node.attr?, same]
  rw [alike]
  exact outcomes.shows right

/-- A document comes to the same with other nodes in the place of a child that comes to the same. -/
theorem prepared_replaces {one document replacement : Node} {others : List Node}
    (same : outcomes.below [one] = outcomes.below others)
    (place : Replaces one others document replacement) :
    outcomes.prepared document = outcomes.prepared replacement := by
  -- A child is prepared without its show condition.
  suffices both : outcomes.prepared document = outcomes.prepared replacement ∧
      outcomes.prepared document.withoutCondition =
        outcomes.prepared replacement.withoutCondition from both.1
  induction place with
  | @here node before after content =>
    have here := outcomes.below_congr same before after
    rw [List.append_assoc, List.singleton_append] at here
    exact outcomes.prepared_withContent content here
  | @inside node child replaced before after content single inner ih =>
    have attributes := inner.attrs_eq
    have alone : replaced.each? = none := by
      rw [← single]
      simp only [Node.each?, Node.strAttr?, Node.attr?, attributes]
    have child : outcomes.below [child] = outcomes.below [replaced] := by
      rw [outcomes.below_of_single single, outcomes.below_of_single alone,
        outcomes.shown_congr attributes, ih.2]
    have here := outcomes.below_congr child before after
    rw [List.append_assoc, List.singleton_append, List.append_assoc, List.singleton_append] at here
    exact outcomes.prepared_withContent content here

end Outcomes

/-! ## Leaves -/

/-- A node that needs no evaluator, and that nothing is in. -/
structure IsLeaf (node : Node) : Prop where
  plain : node.isUnconditional = true
  childless : node.children = []

theorem IsLeaf.flatten {node : Node} (leaf : IsLeaf node) : IsLeaf node.flatten :=
  ⟨Node.isUnconditional_flatten leaf.plain, by rw [Node.children_flatten, leaf.childless]⟩

theorem Node.flatten_flatten (node : Node) : node.flatten.flatten = node.flatten :=
  Node.flatten_of_not_isVariable node.isVariable_flatten

/-- A node that nothing is in is only flattened. -/
theorem prepareBranchwise_of_childless {node : Node} (childless : node.children = []) :
    prepareBranchwise evaluator data node = pure node.flatten := by
  have none : node.flatten.children = [] := by rw [Node.children_flatten, childless]
  have opened : openNode evaluator data node = pure node.flatten := by
    unfold openNode
    split
    · rfl
    · next children present =>
      obtain rfl : children = [] := by simpa [Node.children, present] using none
      rw [rebuild, pure_bind, ← present]
      obtain ⟨kind, attrs, marks, content, text, extra⟩ := node.flatten
      rfl
  rw [prepareBranchwise_eq, opened, pure_bind, none, List.mapM_nil, pure_bind, ← none,
    Node.withChildren_children]

theorem replaceChildren_of_leaves {leaves : List Node} (plain : ∀ leaf ∈ leaves, IsLeaf leaf) :
    replaceChildren evaluator data leaves = pure leaves := by
  rw [← rebuild_nil, rebuild_of_unconditional evaluator data leaves []
    fun leaf member => (plain leaf member).plain]
  rfl

theorem replaceChild_of_leaf {leaf : Node} (plain : IsLeaf leaf) :
    replaceChild evaluator data leaf = pure [leaf] := by
  obtain ⟨shown, single⟩ := Node.isUnconditional_iff.mp plain.plain
  rw [replaceChild_of_single single, Node.isShown_of_none shown, liftM_pure, pure_bind,
    Node.withoutCondition_of_none shown]
  rfl

namespace Outcomes

variable [IsCancelMul M] [Nonempty σ] (outcomes : Outcomes evaluator data log) {leaves : List Node}
  (plain : ∀ leaf ∈ leaves, IsLeaf leaf)
include plain

theorem mapM_prepared_of_leaves :
    leaves.mapM outcomes.prepared = pure (leaves.map Node.flatten) := by
  induction leaves with
  | nil => rfl
  | cons leaf rest ih =>
    obtain ⟨first, others⟩ := List.forall_mem_cons.mp plain
    have flattened : outcomes.prepared leaf = pure leaf.flatten := by
      refine (outcomes.prepares leaf).unique ?_
      rw [prepareBranchwise_of_childless first.childless]
      exact .pure _
    rw [List.mapM_cons, flattened, pure_bind, ih others, pure_bind]
    rfl

/-- What is replaced by leaves comes to the flattened leaves. -/
theorem below_of_comesTo {children : List Node}
    (replaces : ComesTo log (replaceChildren evaluator data children) (pure leaves)) :
    outcomes.below children = pure (leaves.map Node.flatten) := by
  rw [below, (outcomes.replaces children).unique replaces, pure_bind,
    outcomes.mapM_prepared_of_leaves plain]

/-- Flattened leaves come to themselves. -/
theorem below_flatten :
    outcomes.below (leaves.map Node.flatten) = pure (leaves.map Node.flatten) := by
  have flat : ∀ leaf ∈ leaves.map Node.flatten, IsLeaf leaf := by
    intro leaf member
    obtain ⟨one, given, rfl⟩ := List.mem_map.mp member
    exact (plain one given).flatten
  have replaces : ComesTo log (replaceChildren evaluator data (leaves.map Node.flatten))
      (pure (leaves.map Node.flatten)) := by
    rw [replaceChildren_of_leaves flat]
    exact .pure _
  rw [outcomes.below_of_comesTo flat replaces, List.map_map]
  exact congrArg pure (List.map_congr_left fun leaf _ => leaf.flatten_flatten)

end Outcomes

/-! ## Level by level -/

section Level

variable {α β : Type}

/-- The outcome has a result. -/
def Outcome.Gives (outcome : Outcome M α) (result : α) : Prop :=
  ∃ amount, outcome = WriterT.mk (some (result, amount))

theorem Outcome.gives_pure {value result : α} :
    Outcome.Gives (pure value : Outcome M α) result ↔ value = result := by
  constructor
  · rintro ⟨amount, same⟩
    exact (Prod.mk.inj (Option.some.inj same)).1
  · rintro rfl
    exact ⟨1, rfl⟩

theorem Outcome.gives_bind {first : Outcome M α} {next : α → Outcome M β} {result : β} :
    Outcome.Gives (first >>= next) result ↔
      ∃ middle, Outcome.Gives first middle ∧ Outcome.Gives (next middle) result := by
  constructor
  · rintro ⟨amount, done⟩
    rcases first with _ | ⟨middle, before⟩
    · cases done
    · obtain ⟨⟨last, after⟩, found, same⟩ := Option.map_eq_some_iff.mp done
      cases same
      exact ⟨middle, ⟨before, rfl⟩, after, found⟩
  · rintro ⟨middle, ⟨before, rfl⟩, after, ends⟩
    refine ⟨before * after, ?_⟩
    change Option.map _ (next middle).run = _
    rw [ends]
    rfl

theorem Preparing.ComesTo.ok_iff {work : Preparing σ α} {outcome : Outcome M α}
    (comes : ComesTo log work outcome) {session : Session σ} {result : α} :
    (work session).1 = .ok result ↔ Outcome.Gives outcome result := by
  cases comes with
  | failure each =>
    obtain ⟨_, _, failed⟩ := each session
    rw [failed]
    constructor
    · intro done
      cases done
    · rintro ⟨_, known⟩
      cases known
  | @success given amount each =>
    obtain ⟨_, succeeded, -⟩ := each session
    rw [succeeded]
    constructor
    · rintro ⟨rfl⟩
      exact ⟨amount, rfl⟩
    · rintro ⟨_, known⟩
      exact congrArg Except.ok (Prod.mk.inj (Option.some.inj known)).1

variable [IsCancelMul M]

/-- Level by level a document comes to the same. -/
theorem Outcomes.comesTo_prepare [Nonempty σ] {weight : Call → M}
    (outcomes : Outcomes evaluator data log) (logs : Logs evaluator data log weight)
    (document : Node) :
    ComesTo log (prepare evaluator data document) (outcomes.prepared document) := by
  obtain ⟨outcome, byLevel, byBranch⟩ := exists_comesTo_both logs document
  rwa [byBranch.unique (outcomes.prepares document)] at byLevel

variable {weight : Call → M} (logs : Logs evaluator data log weight) {one : Node}
  {others : List Node}
include logs

/-- If a child comes to the same as other nodes, these may stand in its place. -/
theorem prepare_replaces
    (same : ∀ outcomes : Outcomes evaluator data log, outcomes.below [one] = outcomes.below others)
    {document replacement : Node} (place : Replaces one others document replacement)
    (session : Session σ) (result : Node) :
    (prepare evaluator data document session).1 = .ok result ↔
      (prepare evaluator data replacement session).1 = .ok result := by
  have : Nonempty σ := ⟨session.evaluator⟩
  obtain ⟨outcomes⟩ := Outcomes.nonempty logs
  have first := outcomes.comesTo_prepare logs document
  have second := outcomes.comesTo_prepare logs replacement
  rw [outcomes.prepared_replaces (same outcomes) place] at first
  exact first.ok_iff.trans second.ok_iff.symm

/-- If a child comes to some nodes, these stand between what the children around it come to. -/
theorem prepare_around
    (comes : ∀ outcomes : Outcomes evaluator data log, outcomes.below [one] = pure others)
    {node : Node} {before after : List Node}
    (content : node.content = some (before ++ one :: after)) (session : Session σ) (result : Node) :
    (prepare evaluator data node session).1 = .ok result ↔ ∃ first last,
      (prepare evaluator data (node.withContent before) session).1 =
        .ok (node.flatten.withContent first) ∧
      (prepare evaluator data (node.withContent after) session).1 =
        .ok (node.flatten.withContent last) ∧
      result = node.flatten.withContent (first ++ others ++ last) := by
  have : Nonempty σ := ⟨session.evaluator⟩
  obtain ⟨outcomes⟩ := Outcomes.nonempty logs
  have alone (children prepared : List Node) :
      (prepare evaluator data (node.withContent children) session).1 =
        .ok (node.flatten.withContent prepared) ↔
          Outcome.Gives (outcomes.below children) prepared := by
    rw [(outcomes.comesTo_prepare logs _).ok_iff, outcomes.prepared_of_content rfl,
      Node.flatten_withContent, Outcome.gives_bind]
    constructor
    · rintro ⟨given, gives, same⟩
      obtain rfl : given = prepared :=
        Option.some.inj (congrArg Node.content (Outcome.gives_pure.mp same))
      exact gives
    · exact fun gives => ⟨prepared, gives, Outcome.gives_pure.mpr rfl⟩
  rw [(outcomes.comesTo_prepare logs node).ok_iff, outcomes.prepared_of_content content,
    ← List.singleton_append, ← List.append_assoc, outcomes.below_append, outcomes.below_append,
    comes outcomes]
  simp only [pure_bind, bind_assoc, Outcome.gives_bind, Outcome.gives_pure, alone]
  constructor
  · rintro ⟨first, left, last, right, rfl⟩
    exact ⟨first, last, left, right, rfl⟩
  · rintro ⟨first, last, left, right, rfl⟩
    exact ⟨first, left, last, right, rfl⟩

end Level

end MessageTemplate.Document
