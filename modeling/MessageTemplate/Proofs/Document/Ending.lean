import MessageTemplate.Document.Stage

/-! # The work on a document ends

A document is prepared in steps (`Stage.step`), and each step leaves a stage that comes before the one
it found. The order compares first how deep the document may nest, then the room that is left below the
waiting addresses, and while the children of a node are replaced the heights of those that are pending.
The room and the heights are compared as multisets: what one step takes away may give way to any number
of smaller ones. -/

namespace MessageTemplate.Document

section

variable {σ : Type} {evaluator : Evaluator σ} {data : Json}

/-! ## Taking a child -/

theorem rebuild_cons (child : Node) (rest rebuilt : List Node) :
    rebuild evaluator data (child :: rest) rebuilt =
      takeChild evaluator data child rest rebuilt >>= fun next =>
        rebuild evaluator data next.1 next.2 := by
  rw [rebuild, takeChild, bind_assoc]
  refine bind_congr fun shown => ?_
  cases shown with
  | false => simp
  | true =>
    simp only [↓reduceIte]
    cases child.withoutCondition.each? with
    | none => simp
    | some each => simp

/-- A child gives way to nodes that nest less deeply, and no node comes to nest deeper. -/
theorem ensures_takeChild (child : Node) (rest rebuilt : List Node) :
    (takeChild evaluator data child rest rebuilt).Ensures fun next =>
      Backlog.Shrinks ⟨next.1.map Node.height⟩ ⟨(child :: rest).map Node.height⟩ ∧
        max (heights next.1) (heights next.2) ≤ max (heights (child :: rest)) (heights rebuilt) := by
  have own : child.withoutCondition.height = child.height := child.height_withoutCondition
  refine (Preparing.Ensures.trivial _).bind fun shown _ => ?_
  cases shown with
  | false =>
    refine .pure ⟨Backlog.shrinks_tail _ _, ?_⟩
    simp only [heights]
    omega
  | true =>
    simp only [↓reduceIte]
    split
    · refine .pure ⟨Backlog.shrinks_tail _ _, ?_⟩
      simp only [heights, heights_append, own]
      omega
    · next each _ =>
      refine (Preparing.Ensures.trivial _).bind fun size _ => .pure ?_
      refine ⟨shrinks_expand child (bareExpression each) size rest, ?_⟩
      have less := child.withoutCondition.heights_expand_lt (bareExpression each) size
      simp only [heights, heights_append]
      omega

namespace Stage

variable {α β : Type} {stage : Stage}

/-! ## Where steps lead -/

theorem steps_add (first second : Nat) (stage : Stage) :
    steps evaluator data (first + second) stage =
      steps evaluator data first stage >>= steps evaluator data second := by
  induction first generalizing stage with
  | zero => simp [steps]
  | succ first ih =>
    rw [Nat.succ_add, steps, steps, bind_assoc]
    exact bind_congr ih

theorem Does.pure {made : α → Stage} (result : α) :
    Does evaluator data (made result) (Pure.pure result) made :=
  fun _ => ⟨0, rfl⟩

/-- One step does some work that it consists of. -/
theorem Does.of_step {work : Preparing σ α} {made : α → Stage}
    (same : stage.step evaluator data = ofOutcome made <$> work.run) :
    Does evaluator data stage work made := by
  refine fun session => ⟨1, ?_⟩
  rw [steps, same]
  rfl

/-- A step that asks nothing comes before the steps that do some work. -/
theorem Does.after {next : Stage} {work : Preparing σ α} {made : α → Stage}
    (first : stage.step evaluator data = Pure.pure next) (does : Does evaluator data next work made) :
    Does evaluator data stage work made := by
  intro session
  obtain ⟨count, reached⟩ := does session
  refine ⟨count + 1, ?_⟩
  rw [steps, first, pure_bind]
  exact reached

theorem Does.bind {first : Preparing σ α} {second : α → Preparing σ β} {known : α → Prop}
    {made : α → Stage} {finished : β → Stage} (does : Does evaluator data stage first made)
    (ensures : first.Ensures known)
    (goesOn : ∀ result, known result → Does evaluator data (made result) (second result) finished) :
    Does evaluator data stage (first >>= second) finished := by
  intro session
  obtain ⟨count, reached⟩ := does session
  rw [Preparing.bind_apply]
  rcases given : first session with ⟨cause | result, next⟩
  · rw [given] at reached
    exact ⟨count, reached⟩
  · obtain ⟨more, later⟩ := goesOn result (ensures _ _ _ given) next
    refine ⟨count + more, ?_⟩
    rw [given] at reached
    have split : steps evaluator data (count + more) stage session =
        let (middle, between) := steps evaluator data count stage session
        steps evaluator data more middle between :=
      congrFun (steps_add count more stage) session
    rw [split, reached]
    exact later

theorem Does.certified {work : Preparing σ α} {known : α → Prop} {ensures : work.Ensures known}
    {made : α → Stage} (does : Does evaluator data stage work made) :
    Does evaluator data stage (work.certified known ensures) fun result => made result.1 := by
  intro session
  obtain ⟨count, reached⟩ := does session
  refine ⟨count, reached.trans ?_⟩
  rcases given : work session with ⟨cause | result, next⟩
  · rw [Preparing.certified_of_error given]
    rfl
  · rw [Preparing.certified_of_ok given]
    rfl

/-- The pending children run out, or a collection cannot be resolved. -/
theorem does_rebuild (document : Node) (address : Address) (queue : List Address) (node : Node)
    (pending rebuilt : List Node) :
    Does evaluator data (replacing document address queue node pending rebuilt)
      (rebuild evaluator data pending rebuilt)
      fun replaced => replacing document address queue node [] replaced := by
  -- The copies of a repeated child come in front of the others, so the list itself may grow.
  generalize sizes : Backlog.mk (pending.map Node.height) = backlog
  induction backlog using Backlog.shrinks_wellFounded.induction generalizing pending rebuilt with
  | _ backlog ih =>
    subst sizes
    cases pending with
    | nil =>
      rw [rebuild]
      exact Does.pure rebuilt
    | cons child rest =>
      rw [rebuild_cons]
      have taken : Does evaluator data (replacing document address queue node (child :: rest) rebuilt)
          (takeChild evaluator data child rest rebuilt)
          fun next => replacing document address queue node next.1 next.2 := .of_step rfl
      exact taken.bind (ensures_takeChild child rest rebuilt) fun next known =>
        ih _ known.1 next.1 next.2 rfl

/-- Working on the node of an address takes the address off the queue and puts those of its children
behind it. -/
theorem does_openNode {document node : Node} {address : Address} (queue : List Address)
    (found : document.at? address = some node) :
    Does evaluator data (queued document (address :: queue)) (openNode evaluator data node)
      (leave document address queue) := by
  unfold openNode
  split
  · next leaf =>
    have reached : visit document address queue = leave document address queue node.flatten := by
      simp [visit, found, leaf, leave, Node.childAddresses, Node.children]
    exact .after (congrArg Pure.pure reached) (.pure node.flatten)
  · next children content =>
    have reached : visit document address queue =
        replacing document address queue node.flatten children [] := by
      simp [visit, found, content]
    refine .after (congrArg Pure.pure reached) ?_
    refine (does_rebuild document address queue node.flatten children []).bind (.trivial _)
      fun rebuilt _ => ?_
    exact .after rfl (.pure (node.flatten.withContent rebuilt))

/-- The queue runs out, or a collection cannot be resolved. -/
theorem does_walk {bound : Nat} (document : Node) (low : document.height ≤ bound)
    (queue : List Address) :
    Does evaluator data (queued document queue) (walk evaluator data document low queue)
      fun prepared => queued prepared [] := by
  fun_induction walk evaluator data document low queue with
  | case1 document low => exact fun _ => ⟨0, rfl⟩
  | case2 document low address queue absent ih =>
    have reached : visit document address queue = queued document queue := by simp [visit, absent]
    exact .after (congrArg Pure.pure reached) ih
  | case3 document low address queue node found ih =>
    exact (does_openNode queue found).certified.bind (.trivial _) fun opened _ =>
      ih opened.1 opened.2

/-! ## The measure of a stage -/

/-- The addresses that are queued, behind the one whose node is being worked on. -/
def waiting : Stage → List Address
  | queued _ queue => queue
  | replacing _ address queue _ _ _ => address :: queue
  | failed _ => []

/-- The children that are pending. -/
def pending : Stage → List Node
  | queued _ _ => []
  | replacing _ _ _ _ pending _ => pending
  | failed _ => []

/-- How deep the document nests, or may nest once the children of a node have been replaced. -/
def bound : Stage → Nat
  | queued document _ => document.height
  | replacing document address _ _ pending rebuilt =>
    max document.height (address.length + (max (heights pending) (heights rebuilt) + 1))
  | failed _ => 0

/-- Whether the first of the waiting addresses has yet to be visited. -/
def phase : Stage → Nat
  | queued _ _ => 1
  | replacing .. => 0
  | failed _ => 0

/-- What decides how much work is left: how deep the document may nest, the room below the waiting
addresses, and while the children of a node are replaced the heights of those that are pending. -/
def rank (stage : Stage) : Nat × Backlog × Nat × Backlog :=
  (stage.bound, ⟨stage.waiting.map (stage.bound - ·.length)⟩, stage.phase,
    ⟨stage.pending.map Node.height⟩)

/-- Of two stages with the same room below their addresses, one that is in an earlier phase comes before
the other, and in the same phase one whose pending children have shrunk. -/
def LowerWithin : Nat × Backlog → Nat × Backlog → Prop :=
  Prod.Lex (· < ·) Backlog.Shrinks

/-- What is less work comes before: first the depth of the document is compared, then the room below the
addresses. -/
def Lower : Nat × Backlog × Nat × Backlog → Nat × Backlog × Nat × Backlog → Prop :=
  Prod.Lex (· < ·) (Prod.Lex Backlog.Shrinks LowerWithin)

theorem lower_wellFounded : WellFounded Lower :=
  (Prod.lex ⟨_, Nat.lt_wfRel.wf⟩ (Prod.lex ⟨_, Backlog.shrinks_wellFounded⟩
    (Prod.lex ⟨_, Nat.lt_wfRel.wf⟩ ⟨_, Backlog.shrinks_wellFounded⟩))).wf

variable {next : Stage}

/-- The document does not come to nest deeper, and if it nests as deep, there is less room below the
addresses. -/
theorem lower_of_waiting (shallow : next.bound ≤ stage.bound)
    (less : Backlog.Shrinks ⟨next.waiting.map (stage.bound - ·.length)⟩
      ⟨stage.waiting.map (stage.bound - ·.length)⟩) : Lower next.rank stage.rank := by
  rcases Nat.lt_or_eq_of_le shallow with lower | same
  · exact Prod.Lex.left _ _ lower
  · rw [rank, rank, same]
    exact Prod.Lex.right _ (Prod.Lex.left _ _ less)

/-- The document does not come to nest deeper, the same addresses are waiting, and there is less to do
at the first of them. -/
theorem lower_of_within (shallow : next.bound ≤ stage.bound) (same : next.waiting = stage.waiting)
    (less : LowerWithin (next.phase, ⟨next.pending.map Node.height⟩)
      (stage.phase, ⟨stage.pending.map Node.height⟩)) : Lower next.rank stage.rank := by
  rcases Nat.lt_or_eq_of_le shallow with lower | alike
  · exact Prod.Lex.left _ _ lower
  · rw [rank, rank, same, alike]
    exact Prod.Lex.right _ (Prod.Lex.right _ less)

/-- A visit takes an address off the queue, or begins to work on the node there. -/
theorem lower_visit (document : Node) (address : Address) (queue : List Address) :
    Lower (visit document address queue).rank (queued document (address :: queue)).rank := by
  unfold visit
  split
  · exact lower_of_waiting (Nat.le_refl _) (Backlog.shrinks_tail _ _)
  next node found =>
  have height := Node.height_at? found
  split
  · refine lower_of_waiting ?_ (Backlog.shrinks_tail _ _)
    exact Node.height_replaceAt found (Nat.le_of_eq node.height_flatten)
  · next children content =>
    refine lower_of_within ?_ rfl (Prod.Lex.left _ _ Nat.zero_lt_one)
    have whole := node.flatten.height_eq
    rw [node.height_flatten, Node.children, content, Option.getD_some] at whole
    simp only [bound, heights]
    omega

/-- When the children of a node have been replaced, there is less room below each of them than below the
node. -/
theorem lower_leave (document : Node) (address : Address) (queue : List Address)
    (node : Node) (rebuilt : List Node) :
    Lower (leave document address queue (node.withContent rebuilt)).rank
      (replacing document address queue node [] rebuilt).rank := by
  have height : (node.withContent rebuilt).height = heights rebuilt + 1 := Node.height_eq _
  refine lower_of_waiting ?_ ?_
  · have := document.height_replaceAt_le address (node.withContent rebuilt)
    simp only [leave, bound, heights]
    omega
  · refine shrinks_childAddresses ?_ (node.withContent rebuilt) queue
    simp only [bound]
    omega

/-- A step leaves less work than there was, unless the work is over. -/
theorem lower_step (going : stage.isOver = false) (session : Session σ) :
    Lower (stage.step evaluator data session).1.rank stage.rank := by
  cases stage with
  | queued document queue =>
    cases queue with
    | nil => contradiction
    | cons address queue => exact lower_visit document address queue
  | replacing document address queue node pending rebuilt =>
    cases pending with
    | nil => exact lower_leave document address queue node rebuilt
    | cons child rest =>
      have ensures : (takeChild evaluator data child rest rebuilt).Ensures _ :=
        ensures_takeChild child rest rebuilt
      have reached : (step evaluator data
            (replacing document address queue node (child :: rest) rebuilt) session).1 =
          ofOutcome (fun result => replacing document address queue node result.1 result.2)
            (takeChild evaluator data child rest rebuilt session).1 := rfl
      rw [reached]
      rcases taken : takeChild evaluator data child rest rebuilt session with ⟨cause | ⟨later, kept⟩, _⟩
      · -- A failure is not as deep as any document may nest.
        apply Prod.Lex.left
        simp only [ofOutcome, bound]
        omega
      · obtain ⟨less, shallow⟩ := ensures _ _ _ taken
        refine lower_of_within ?_ rfl (Prod.Lex.right _ less)
        simp only [ofOutcome, bound] at shallow ⊢
        omega
  | failed cause => contradiction

/-- A run comes to its end, even if it is another evaluator that answers at each step. -/
theorem exists_isOver (run : Nat → Stage)
    (leads : ∀ position, (run position).MayLead (run (position + 1))) :
    ∃ position, (run position).isOver = true := by
  -- What holds of the stages that come before the first one is used of the run without that one.
  generalize least : (run 0).rank = rank
  induction rank using lower_wellFounded.induction generalizing run with
  | _ rank ih =>
    subst least
    cases ends : (run 0).isOver with
    | true => exact ⟨0, ends⟩
    | false =>
      obtain ⟨σ, evaluator, data, session, next⟩ := leads 0
      have less : Lower (run 1).rank (run 0).rank := next ▸ lower_step ends session
      obtain ⟨position, stops⟩ :=
        ih _ less (fun position => run (position + 1)) (fun position => leads (position + 1)) rfl
      exact ⟨position + 1, stops⟩

end Stage

/-- The work on a document ends. A run of steps comes to an end of the queue or to a failure, whatever
is answered on the way, and even if the answers come from another evaluator each time. With one
evaluator, whose answers may change from one question to the next, a number of steps leads from the
document to the end of the queue and the prepared document, or to the failure of its preparation; and a
number of steps leads from any pending children to the end of them and the nodes that replace them, or
to the failure to replace them. -/
theorem prepare_ends :
    (∀ run : Nat → Stage, (∀ position, (run position).MayLead (run (position + 1))) →
      ∃ position, (run position).isOver = true) ∧
    ∀ {σ : Type} (evaluator : Evaluator σ) (data : Json),
      (∀ document, Stage.Does evaluator data (.queued document [[]]) (prepare evaluator data document)
        fun prepared => .queued prepared []) ∧
      ∀ document address queue node pending rebuilt,
        Stage.Does evaluator data (.replacing document address queue node pending rebuilt)
          (rebuild evaluator data pending rebuilt)
          fun replaced => .replacing document address queue node [] replaced :=
  ⟨Stage.exists_isOver, fun _ _ =>
    ⟨fun document => Stage.does_walk document (Nat.le_refl _) [[]], Stage.does_rebuild⟩⟩

end

end MessageTemplate.Document
