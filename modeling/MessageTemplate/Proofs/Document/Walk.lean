import MessageTemplate.Document.Branchwise
import MessageTemplate.Proofs.Document.Address
import MessageTemplate.Proofs.Document.Outcome
import MessageTemplate.Proofs.Document.Recording
import Mathlib.Algebra.Order.Group.Multiset
import Mathlib.Algebra.Group.TypeTags.Basic

/-! # Level by level and branch by branch

A document is prepared from a queue of addresses, level by level. This module shows that, for an
evaluator with fixed answers, nothing else comes out than from the plain recursion, which goes
branch by branch.

The queue holds addresses that are apart, and stays so: an address gives way to those of its
children, in a document in which the node at the address has been worked on. Each address that is
queued stands for a visit, which prepares the whole node there, with all that is below it, where it
stands. Visits at addresses that are apart may be made in any order; so the visits of the children
may be made at once, before those that were queued earlier, and together they are the visit of the
node that the children came from.

The main result is `prepare_agrees_with_prepareBranchwise`; the step from a queue to its visits is
`comesTo_walk`. -/

namespace MessageTemplate.Document

/-! ## Branch by branch -/

section Branchwise

variable {σ : Type} (evaluator : Evaluator σ) (data : Json)

theorem openNode_of_leaf {node : Node} (leaf : node.flatten.content = none) :
    openNode evaluator data node = pure node.flatten := by
  unfold openNode
  split
  · rfl
  · next present => cases leaf.symm.trans present

theorem openNode_of_content {node : Node} {children : List Node}
    (present : node.flatten.content = some children) :
    openNode evaluator data node = do
      let replaced ← replaceChildren evaluator data children
      return { node.flatten with content := some replaced } := by
  unfold openNode
  split
  · next leaf => cases leaf.symm.trans present
  · next found =>
    cases present.symm.trans found
    rw [rebuild_nil]

/-- A node is worked on, and then its children are prepared. -/
theorem prepareBranchwise_eq (node : Node) :
    prepareBranchwise evaluator data node = do
      let opened ← openNode evaluator data node
      let prepared ← opened.children.mapM (prepareBranchwise evaluator data)
      return opened.withChildren prepared := by
  rw [prepareBranchwise]
  split
  · next leaf =>
    have childless : node.flatten.children = [] := by rw [Node.children, leaf]; rfl
    rw [openNode_of_leaf evaluator data leaf, pure_bind, childless, List.mapM_nil, pure_bind,
      ← childless, Node.withChildren_children]
  · next children present =>
    rw [openNode_of_content evaluator data present]
    simp only [bind_assoc, pure_bind, List.mapM_subtype, List.unattach_attach]
    exact Preparing.certified_bind fun replaced : List Node => do
      let prepared ← replaced.mapM (prepareBranchwise evaluator data)
      return { node.flatten with content := some prepared }

end Branchwise

/-! ## Visits

A visit prepares the node at an address, with all that is below it, where it stands. -/

section Visits

variable {M : Type} [CommMonoid M] (prepared : Node → Outcome M Node)

/-- Prepares the node at an address, if there is one. -/
def visit (document : Node) (address : Address) : Outcome M Node :=
  match document.at? address with
  | none => pure document
  | some node => document.replaceAt address <$> prepared node

variable {prepared} {document node : Node} {address : Address}

theorem visit_of_none (absent : document.at? address = none) :
    visit prepared document address = pure document := by
  rw [visit, absent]

theorem visit_of_some (found : document.at? address = some node) :
    visit prepared document address = document.replaceAt address <$> prepared node := by
  rw [visit, found]

/-- A visit does not change what there is to visit at an address apart from its own. -/
theorem visit_bind_visit {left right : Address} (apart : Apart left right)
    (found : document.at? left = some node) :
    (visit prepared document left >>= (visit prepared · right)) = do
      let first ← prepared node
      match document.at? right with
      | none => pure (document.replaceAt left first)
      | some other =>
        return (document.replaceAt left first).replaceAt right (← prepared other) := by
  rw [visit_of_some found, bind_map_left]
  apply bind_congr
  intro first
  simp only [visit, Node.at?_replaceAt_of_apart apart, map_eq_pure_bind]

/-- Visits at addresses that are apart may be made in either order. -/
theorem visit_comm {left right : Address} (apart : Apart left right) (document : Node) :
    (visit prepared document left >>= (visit prepared · right)) =
      (visit prepared document right >>= (visit prepared · left)) := by
  cases here : document.at? left with
  | none =>
    rw [visit_of_none here, pure_bind]
    cases there : document.at? right with
    | none => rw [visit_of_none there, pure_bind, visit_of_none here]
    | some other =>
      rw [visit_bind_visit apart.symm there, here, visit_of_some there, map_eq_pure_bind]
  | some node =>
    rw [visit_bind_visit apart here]
    cases there : document.at? right with
    | none => rw [visit_of_none there, pure_bind, visit_of_some here, map_eq_pure_bind]
    | some other =>
      rw [visit_bind_visit apart.symm there, here]
      refine (Outcome.bind_comm _ _ _).trans ?_
      simp only [Node.replaceAt_comm apart]

/-- Visits at addresses that are apart may be made in any order. -/
theorem foldlM_visit_perm {queue other : List Address} (same : queue.Perm other)
    (apart : queue.Pairwise Apart) (document : Node) :
    queue.foldlM (visit prepared) document = other.foldlM (visit prepared) document := by
  induction same generalizing document with
  | nil => rfl
  | cons address _ ih =>
    rw [List.foldlM_cons, List.foldlM_cons]
    exact bind_congr fun next => ih (List.pairwise_cons.mp apart).2 next
  | swap first second rest =>
    simp only [List.foldlM_cons, ← bind_assoc]
    rw [visit_comm]
    exact (List.pairwise_cons.mp apart).1 first List.mem_cons_self
  | trans same _ ih₁ ih₂ =>
    have symmetric : ∀ {left right}, Apart left right → Apart right left := Apart.symm
    rw [ih₁ apart, ih₂ (same.pairwise apart symmetric)]

/-- Visits below an address are visits in the node there. -/
theorem visit_append (found : document.at? address = some node) (replacement : Node)
    (rest : Address) :
    visit prepared (document.replaceAt address replacement) (address ++ rest) =
      document.replaceAt address <$> visit prepared replacement rest := by
  have below : (document.replaceAt address replacement).at? (address ++ rest) =
      replacement.at? rest := by
    rw [Node.at?_append, Node.at?_replaceAt found, Option.bind_some]
  cases inside : replacement.at? rest with
  | none => rw [visit_of_none (below.trans inside), visit_of_none inside, map_pure]
  | some inner =>
    rw [visit_of_some (below.trans inside), visit_of_some inside, Functor.map_map]
    exact congrArg (· <$> prepared inner)
      (funext fun result => Node.replaceAt_append document replacement result address rest)

theorem foldlM_visit_append (found : document.at? address = some node) (rests : List Address)
    (replacement : Node) :
    (rests.map (address ++ ·)).foldlM (visit prepared) (document.replaceAt address replacement) =
      document.replaceAt address <$> rests.foldlM (visit prepared) replacement := by
  induction rests generalizing replacement with
  | nil => rw [List.map_nil, List.foldlM_nil, List.foldlM_nil, map_pure]
  | cons rest rests ih =>
    rw [List.map_cons, List.foldlM_cons, List.foldlM_cons, visit_append found, bind_map_left,
      map_bind]
    exact bind_congr ih

/-- A visit of a child prepares it where it stands among the children. -/
theorem visit_child (whole : node.content.isSome) (before after : List Node) (child : Node) :
    visit prepared (node.withChildren (before ++ child :: after)) [before.length] =
      (fun result => node.withChildren (before ++ result :: after)) <$> prepared child := by
  obtain ⟨children, present⟩ := Option.isSome_iff_exists.mp whole
  have standing : (node.withChildren (before ++ child :: after)).at? [before.length] =
      some child := by
    simp [Node.at?, Node.children, Node.withChildren, present]
  rw [visit_of_some standing]
  refine congrArg (· <$> prepared child) (funext fun result => ?_)
  simp only [Node.replaceAt, Node.withChildren, present, Option.map_some]
  rw [show (before ++ child :: after).modify before.length (fun _ => result) = _ from
    List.modifyTailIdx_add _ 0 before (child :: after)]
  rfl

theorem foldlM_visit_withChildren (whole : node.content.isSome) (before after : List Node) :
    ((List.range' before.length after.length).map ([·])).foldlM (visit prepared)
        (node.withChildren (before ++ after)) =
      (fun results => node.withChildren (before ++ results)) <$> after.mapM prepared := by
  induction after generalizing before with
  | nil => simp
  | cons child after ih =>
    rw [List.length_cons, List.range'_succ, List.map_cons, List.foldlM_cons,
      visit_child whole, bind_map_left, List.mapM_cons, map_bind]
    apply bind_congr
    intro result
    have later := ih (before ++ [result])
    rw [List.length_append, List.length_singleton, List.append_assoc,
      List.singleton_append] at later
    rw [later, bind_pure_comp, Functor.map_map]
    simp only [List.append_assoc, List.singleton_append]

/-- Visits of all children, in order, prepare the children. -/
theorem foldlM_visit_children (node : Node) :
    ((List.range node.children.length).map ([·])).foldlM (visit prepared) node =
      node.withChildren <$> node.children.mapM prepared := by
  cases whole : node.content.isSome with
  | false =>
    have childless : node.children = [] := by
      rw [Node.children, Option.isSome_eq_false_iff.mp whole |> Option.isNone_iff_eq_none.mp]
      rfl
    have same := node.withChildren_children
    rw [childless] at same
    rw [childless, List.length_nil, List.range_zero, List.map_nil, List.foldlM_nil,
      List.mapM_nil, map_pure, same]
  | true =>
    have every := @foldlM_visit_withChildren M _ prepared node whole [] node.children
    simpa [List.range_eq_range'] using every

/-- Visits below an address, of all children of the node there, prepare them. -/
theorem foldlM_visit_childAddresses (found : document.at? address = some node)
    (replacement : Node) :
    (replacement.childAddresses address).foldlM (visit prepared)
        (document.replaceAt address replacement) =
      (fun results => document.replaceAt address (replacement.withChildren results)) <$>
        replacement.children.mapM prepared := by
  have addresses : replacement.childAddresses address =
      ((List.range replacement.children.length).map ([·])).map (address ++ ·) := by
    rw [List.map_map]
    rfl
  rw [addresses, foldlM_visit_append found, foldlM_visit_children, Functor.map_map]

end Visits

/-! ## Level by level -/

section Walk

variable {σ M : Type} [CommMonoid M] {evaluator : Evaluator σ} {data : Json} {log : σ → M}
  {opened prepared : Node → Outcome M Node}

/-- If working on each node has an outcome, then walking comes to a visit at each address that is
queued. -/
theorem comesTo_walk [Nonempty σ]
    (opens : ∀ node, Preparing.ComesTo log (openNode evaluator data node) (opened node))
    (prepares : ∀ node, prepared node = do
      let node ← opened node
      node.withChildren <$> node.children.mapM prepared)
    {bound : Nat} (document : Node) (low : document.height ≤ bound) (queue : List Address)
    (apart : queue.Pairwise Apart) :
    Preparing.ComesTo log (walk evaluator data document low queue)
      (queue.foldlM (visit prepared) document) := by
  fun_induction walk evaluator data document low queue with
  | case1 document low => exact .pure document
  | case2 document low address queue absent ih =>
    rw [List.foldlM_cons, visit_of_none absent, pure_bind]
    exact ih (List.pairwise_cons.mp apart).2
  | case3 document low address queue node found ih =>
    have first : (address :: queue).foldlM (visit prepared) document =
        opened node >>= fun result => (queue ++ result.childAddresses address).foldlM
          (visit prepared) (document.replaceAt address result) := by
      rw [List.foldlM_cons, visit_of_some found, prepares, bind_map_left, bind_assoc]
      apply bind_congr
      intro result
      have later := pairwise_apart_childAddresses apart result
      rw [foldlM_visit_perm List.perm_append_comm later, List.foldlM_append,
        foldlM_visit_childAddresses found, bind_map_left, bind_map_left]
    rw [first]
    exact (opens node).certified_bind fun result =>
      ih result.1 result.2 (pairwise_apart_childAddresses apart result.1)

theorem comesTo_prepare [Nonempty σ]
    (opens : ∀ node, Preparing.ComesTo log (openNode evaluator data node) (opened node))
    (prepares : ∀ node, prepared node = do
      let node ← opened node
      node.withChildren <$> node.children.mapM prepared)
    (document : Node) :
    Preparing.ComesTo log (prepare evaluator data document) (prepared document) := by
  have whole := comesTo_walk opens prepares document (Nat.le_refl _) [[]]
    (List.pairwise_singleton _ _)
  have top : visit prepared document [] = prepared document := id_map (prepared document)
  simp only [List.foldlM_cons, List.foldlM_nil, bind_pure, top] at whole
  exact whole

/-- Level by level and branch by branch come to the same. -/
theorem exists_comesTo_both [IsCancelMul M] [Nonempty σ] {weight : Call → M}
    (logs : Logs evaluator data log weight) (document : Node) :
    ∃ outcome, Preparing.ComesTo log (prepare evaluator data document) outcome ∧
      Preparing.ComesTo log (prepareBranchwise evaluator data document) outcome := by
  choose opened opens using exists_comesTo_openNode logs
  choose prepared prepares using exists_comesTo_prepareBranchwise logs
  refine ⟨prepared document, comesTo_prepare opens (fun node => ?_) document, prepares document⟩
  refine (prepares node).unique ?_
  rw [prepareBranchwise_eq]
  apply (opens node).bind
  intro node
  rw [map_eq_pure_bind]
  exact (Preparing.ComesTo.mapM fun child _ => prepares child).bind fun _ => .pure _

end Walk

/-! ## Fixed answers -/

section Fixed

variable {σ : Type} {evaluator : Evaluator σ} {data : Json}

/-- Nothing need be logged. -/
theorem logs_nothing [Nonempty σ] (fixed : evaluator.Fixed data) :
    Logs evaluator data (fun _ => (1 : Multiplicative (Multiset Call))) fun _ => 1 where
  render source :=
    ⟨(evaluator.render source data (Classical.arbitrary σ)).1, fun state =>
      ⟨(evaluator.render source data state).2, Prod.ext (fixed.render source _ _) rfl, rfl⟩⟩
  resolve expression :=
    ⟨(evaluator.resolveCollection expression data (Classical.arbitrary σ)).1, fun state =>
      ⟨(evaluator.resolveCollection expression data state).2,
        Prod.ext (fixed.resolve expression _ _) rfl, rfl⟩⟩

/-- The questions, in any order. -/
def questions (state : σ × List Call) : Multiplicative (Multiset Call) :=
  Multiplicative.ofAdd (state.2 : Multiset Call)

theorem questions_cons (next state : σ) (call : Call) (calls : List Call) :
    questions (next, call :: calls) = questions (state, calls) * Multiplicative.ofAdd {call} := by
  rw [questions, questions, ← ofAdd_add, add_comm, Multiset.singleton_add, Multiset.cons_coe]

/-- A recording evaluator logs the questions. -/
theorem logs_recording [Nonempty σ] (fixed : evaluator.Fixed data) :
    Logs evaluator.recording data questions fun call => Multiplicative.ofAdd {call} where
  render source :=
    ⟨(evaluator.render source data (Classical.arbitrary σ)).1, fun (state, calls) =>
      ⟨((evaluator.render source data state).2, .render source :: calls),
        Prod.ext (fixed.render source _ _) rfl, questions_cons _ _ _ _⟩⟩
  resolve expression :=
    ⟨(evaluator.resolveCollection expression data (Classical.arbitrary σ)).1, fun (state, calls) =>
      ⟨((evaluator.resolveCollection expression data state).2, .resolve expression :: calls),
        Prod.ext (fixed.resolve expression _ _) rfl, questions_cons _ _ _ _⟩⟩

/-- With fixed answers, a document is prepared level by level exactly if it is prepared branch by
branch, with the same result, and then the same questions are asked, each as often. -/
theorem prepare_agrees_with_prepareBranchwise (fixed : evaluator.Fixed data) (document : Node) :
    (∀ session prepared, (prepare evaluator data document session).1 = .ok prepared ↔
      (prepareBranchwise evaluator data document session).1 = .ok prepared) ∧
    ∀ session prepared, (prepare evaluator data document session).1 = .ok prepared →
      ∃ byLevel byBranch,
        prepare evaluator.recording data document ⟨(session.evaluator, []), session.counters⟩ =
          (.ok prepared, byLevel) ∧
        prepareBranchwise evaluator.recording data document
          ⟨(session.evaluator, []), session.counters⟩ = (.ok prepared, byBranch) ∧
        byLevel.evaluator.2.Perm byBranch.evaluator.2 := by
  refine ⟨fun session prepared => ?_, fun session prepared done => ?_⟩
  · have : Nonempty σ := ⟨session.evaluator⟩
    obtain ⟨outcome, byLevel, byBranch⟩ := exists_comesTo_both (logs_nothing fixed) document
    constructor
    · intro done
      obtain ⟨_, _, -, same, -⟩ := byLevel.same_of_ok byBranch done session
      rw [same]
    · intro done
      obtain ⟨_, _, -, same, -⟩ := byBranch.same_of_ok byLevel done session
      rw [same]
  · have : Nonempty σ := ⟨session.evaluator⟩
    obtain ⟨outcome, byLevel, byBranch⟩ := exists_comesTo_both (logs_recording fixed) document
    have recorded := prepare_recording evaluator data document
      ⟨(session.evaluator, []), session.counters⟩
    obtain ⟨next, last, first, second, same⟩ :=
      byLevel.same_of_ok byBranch (recorded.trans done) ⟨(session.evaluator, []), session.counters⟩
    exact ⟨next, last, first, second, Multiset.coe_eq_coe.mp (Multiplicative.ofAdd.injective same)⟩

end Fixed

/-! A list whose content is repeated for a collection of two elements. -/

/-- An evaluator that resolves each collection to the same items. -/
def resolvingTo (items : List Json) : Evaluator Unit where
  render source _ := pure (.ok source)
  check _ := pure (.ok ())
  resolveCollection _ _ := pure (.ok items)

theorem resolvingTo_fixed (items : List Json) (data : Json) : (resolvingTo items).Fixed data :=
  ⟨fun _ _ _ => rfl, fun _ _ _ => rfl⟩

/-- A list with some entries. -/
def listOf (entries : List Node) : Node := { Node.ofKind "list" with content := some entries }

/-- Entries that are repeated for a collection. -/
def repeatedFor (collection : String) (entries : List Node) : Node :=
  { Node.ofKind "repeat" with
    attrs := some [("each", .string collection)], content := some entries }

theorem prepareBranchwise_ofText {σ : Type} (evaluator : Evaluator σ) (data : Json)
    (text : String) :
    prepareBranchwise evaluator data (Node.ofText text) = pure (Node.ofText text) := by
  rw [prepareBranchwise_eq, openNode_of_leaf evaluator data rfl]
  rfl

theorem replaceChildren_ofText {σ : Type} (evaluator : Evaluator σ) (data : Json)
    (texts : List String) :
    replaceChildren evaluator data (texts.map Node.ofText) = pure (texts.map Node.ofText) := by
  induction texts with
  | nil => rw [List.map_nil, replaceChildren]
  | cons text texts ih =>
    have shown : (Node.ofText text).showCondition? = none := rfl
    have single : (Node.ofText text).each? = none := rfl
    simp [replaceChildren, replaceChild, Node.isShown, Node.withoutCondition, shown, single, ih]

theorem prepareBranchwise_listOf_repeatedFor :
    (prepareBranchwise (resolvingTo [.null, .null]) .null
      (listOf [repeatedFor "items" [Node.ofText "entry"]]) ⟨(), .zero⟩).1 =
        .ok (listOf [Node.ofText "entry", Node.ofText "entry"]) := by
  let entry := repeatedFor "items" [Node.ofText "entry"]
  have shown : entry.showCondition? = none := rfl
  have collection : entry.each? = some "items" := rfl
  have copies : entry.expand (bareExpression "items") 2 = ["entry", "entry"].map Node.ofText :=
    rfl
  have resolved : (resolvingTo [.null, .null]).resolveCollection (bareExpression "items") .null ()
      = (.ok [.null, .null], ()) := rfl
  have opened : openNode (resolvingTo [.null, .null]) .null (listOf [entry]) ⟨(), .zero⟩ =
      (.ok (listOf (["entry", "entry"].map Node.ofText)),
        ⟨(), Counters.zero.count .expansion⟩) := by
    rw [openNode_of_content _ _ rfl]
    simp only [replaceChildren, replaceChild, Node.isShown, Node.withoutCondition, shown,
      collection, liftM_pure, pure_bind, ↓reduceIte, Option.isSome_none, Bool.false_eq_true,
      bind_assoc]
    rw [Preparing.bind_apply, sizeOfCollection_apply, resolved]
    simp only [List.length_cons, List.length_nil, Nat.zero_add, Nat.reduceAdd, copies,
      replaceChildren_ofText]
    rfl
  rw [prepareBranchwise_eq, Preparing.bind_apply, opened]
  simp only [listOf, Node.children, Option.getD_some, List.map_cons, List.map_nil, List.mapM_cons,
    List.mapM_nil, prepareBranchwise_ofText, pure_bind]
  rfl

theorem prepare_listOf_repeatedFor :
    (resolvingTo [.null, .null]).Fixed .null ∧
      (prepare (resolvingTo [.null, .null]) .null
        (listOf [repeatedFor "items" [Node.ofText "entry"]]) ⟨(), .zero⟩).1 =
          .ok (listOf [Node.ofText "entry", Node.ofText "entry"]) :=
  ⟨resolvingTo_fixed _ _,
    ((prepare_agrees_with_prepareBranchwise (resolvingTo_fixed _ _) _).1 _ _).mpr
      prepareBranchwise_listOf_repeatedFor⟩

end MessageTemplate.Document
