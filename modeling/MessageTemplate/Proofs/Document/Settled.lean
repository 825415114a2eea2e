import MessageTemplate.Document.Preparation
import MessageTemplate.Document.Settled
import MessageTemplate.Proofs.Document.Address

/-! # Prepared documents are settled

A repeated node gives way to copies that bring show conditions and collections of their own, and
variables turn up on every level. While a document is prepared, whatever is not settled in it stands
under an address that is still queued (`Confined`): a node that has been opened is no variable, and
none of its children has a show condition or is repeated. Once the queue is empty, nothing is left.

A document that is settled already is opened everywhere, and opening it again changes nothing. So
preparing twice is the same as preparing once, whoever is asked the second time. -/

namespace MessageTemplate.Document

/-! ## Nodes that are reached through content -/

theorem mem_descendantsOfAll {found : Node} {nodes : List Node} :
    found ∈ descendantsOfAll nodes ↔ ∃ node ∈ nodes, found ∈ node.reachable := by
  induction nodes with
  | nil => simp [descendantsOfAll]
  | cons node rest ih =>
    simp only [descendantsOfAll, List.mem_cons, List.mem_append, ih, Node.reachable,
      exists_eq_or_imp, or_assoc]

namespace Node

/-- A node is below another one if it is a child or below a child. -/
theorem mem_descendants {found node : Node} :
    found ∈ node.descendants ↔ ∃ child ∈ node.children, found ∈ child.reachable := by
  obtain ⟨kind, attrs, marks, content, text, extra⟩ := node
  cases content with
  | none => simp [descendants, children]
  | some nodes => exact mem_descendantsOfAll

/-- The nodes that are reached through content are those that have an address. -/
theorem mem_reachable_iff {found document : Node} :
    found ∈ document.reachable ↔ ∃ address, document.at? address = some found := by
  constructor
  · intro member
    rcases List.mem_cons.mp member with rfl | below
    · exact ⟨[], rfl⟩
    · obtain ⟨child, inside, member⟩ := mem_descendants.mp below
      obtain ⟨address, there⟩ := mem_reachable_iff.mp member
      obtain ⟨position, present⟩ := List.mem_iff_getElem?.mp inside
      exact ⟨position :: address, by rw [at?, present, Option.bind_some, there]⟩
  · rintro ⟨address, there⟩
    induction address generalizing document with
    | nil =>
      cases there
      exact List.mem_cons_self
    | cons position rest ih =>
      obtain ⟨child, present, there⟩ := Option.bind_eq_some_iff.mp there
      exact List.mem_cons_of_mem _
        (mem_descendants.mpr ⟨child, List.mem_of_getElem? present, ih there⟩)
termination_by document.height
decreasing_by exact height_lt_of_mem_children inside

/-- The nodes below a node are the children of the nodes that are reached from it. -/
theorem mem_descendants_iff {found document : Node} :
    found ∈ document.descendants ↔ ∃ node ∈ document.reachable, found ∈ node.children := by
  constructor
  · intro below
    obtain ⟨child, inside, member⟩ := mem_descendants.mp below
    rcases List.mem_cons.mp member with rfl | deeper
    · exact ⟨document, List.mem_cons_self, inside⟩
    · obtain ⟨node, reached, parent⟩ := mem_descendants_iff.mp deeper
      exact ⟨node, List.mem_cons_of_mem _ (mem_descendants.mpr ⟨child, inside, reached⟩), parent⟩
  · rintro ⟨node, reached, parent⟩
    have itself : found ∈ found.reachable := List.mem_cons_self
    rcases List.mem_cons.mp reached with rfl | below
    · exact mem_descendants.mpr ⟨found, parent, itself⟩
    · obtain ⟨child, inside, member⟩ := mem_descendants.mp below
      have deeper : found ∈ child.descendants := mem_descendants_iff.mpr ⟨node, member, parent⟩
      exact mem_descendants.mpr ⟨child, inside, List.mem_cons_of_mem _ deeper⟩
termination_by document.height
decreasing_by all_goals exact height_lt_of_mem_children inside

/-- A node that has been opened: it is no variable, and its children need no evaluator. -/
structure IsOpened (node : Node) : Prop where
  flat : node.isVariable = false
  plain : ∀ child ∈ node.children, child.isUnconditional = true

/-- A document is settled if all of its nodes have been opened. -/
theorem isSettled_iff {document : Node} :
    document.isSettled = true ↔ ∀ node ∈ document.reachable, node.IsOpened := by
  rw [isSettled, Bool.and_eq_true, List.all_eq_true, List.all_eq_true]
  constructor
  · intro ⟨flat, plain⟩ node member
    exact ⟨by simpa [isVariable] using flat node member,
      fun child inside => plain child (mem_descendants_iff.mpr ⟨node, member, inside⟩)⟩
  · intro opened
    refine ⟨fun node member => by simpa [isVariable] using (opened node member).flat, ?_⟩
    intro found below
    obtain ⟨node, member, inside⟩ := mem_descendants_iff.mp below
    exact (opened node member).plain found inside

/-! ## What opening a node leaves -/

theorem isUnconditional_iff {node : Node} :
    node.isUnconditional = true ↔ node.showCondition? = none ∧ node.each? = none := by
  rw [isUnconditional, Bool.and_eq_true, Option.isNone_iff_eq_none, Option.isNone_iff_eq_none]

theorem isUnconditional_congr {left right : Node} (same : left.attrs = right.attrs) :
    left.isUnconditional = right.isUnconditional := by
  simp only [isUnconditional, showCondition?, each?, strAttr?, attr?, same]

theorem showCondition?_withoutCondition (node : Node) :
    node.withoutCondition.showCondition? = none := by
  rw [withoutCondition]
  split
  · have absent : (node.removeAttr showKey).attr? showKey = none := by
      cases given : node.attrs <;> simp [attr?, removeAttr, given]
    rw [showCondition?, strAttr?, absent]
    rfl
  · next none => simpa using none

theorem withoutCondition_of_none {node : Node} (plain : node.showCondition? = none) :
    node.withoutCondition = node := by
  simp [withoutCondition, plain]

/-- A node without a show condition is shown, and nobody is asked. -/
theorem isShown_of_none {σ : Type} {evaluator : Evaluator σ} {data : Json} {node : Node}
    (plain : node.showCondition? = none) : node.isShown evaluator data = pure true := by
  rw [isShown, plain]

theorem isVariable_flatten (node : Node) : node.flatten.isVariable = false := by
  cases given : node.isVariable with
  | false => rw [flatten, given]; exact given
  | true => rw [flatten, given]; rfl

theorem flatten_of_not_isVariable {node : Node} (flat : node.isVariable = false) :
    node.flatten = node := by
  rw [flatten, flat]
  rfl

theorem isUnconditional_flatten {node : Node} (plain : node.isUnconditional = true) :
    node.flatten.isUnconditional = true := by
  rw [flatten]
  split
  · rfl
  · exact plain

end Node

/-- What is known of a result is known of the certified result. -/
theorem Preparing.Ensures.certified {σ α : Type} {work : Preparing σ α} {known kept : α → Prop}
    {ensures : work.Ensures known} (also : work.Ensures kept) :
    (work.certified known ensures).Ensures fun result => kept result.1 := by
  intro session result next given
  rcases done : work session with ⟨cause | found, last⟩
  · rw [Preparing.certified_of_error done] at given
    cases given
  · rw [Preparing.certified_of_ok done] at given
    cases given
    exact also session found next done

section Opening

variable {σ : Type} (evaluator : Evaluator σ) (data : Json)

/-- Whatever children are replaced by needs no evaluator. -/
theorem ensures_rebuild_unconditional (pending rebuilt : List Node)
    (plain : ∀ node ∈ rebuilt, node.isUnconditional = true) :
    (rebuild evaluator data pending rebuilt).Ensures
      fun nodes => ∀ node ∈ nodes, node.isUnconditional = true := by
  fun_induction rebuild evaluator data pending rebuilt with
  | case1 rebuilt => exact .pure plain
  | case2 rebuilt child rest keep expand drop =>
    refine (Preparing.Ensures.trivial _).bind fun shown _ => ?_
    cases shown with
    | false => exact drop plain
    | true =>
      simp only [↓reduceIte]
      split
      · next single =>
        refine keep fun node member => ?_
        rcases List.mem_append.mp member with before | last
        · exact plain node before
        · rw [List.mem_singleton.mp last]
          exact Node.isUnconditional_iff.mpr ⟨child.showCondition?_withoutCondition, single⟩
      · next each _ =>
        exact (Preparing.Ensures.trivial _).bind fun size _ => expand each size plain

theorem ensures_openNode_isOpened (node : Node) :
    (openNode evaluator data node).Ensures fun opened =>
      opened.IsOpened ∧ (node.isUnconditional = true → opened.isUnconditional = true) := by
  unfold openNode
  split
  · next leaf =>
    have childless : node.flatten.children = [] := by rw [Node.children, leaf]; rfl
    exact .pure ⟨⟨node.isVariable_flatten, by simp [childless]⟩, Node.isUnconditional_flatten⟩
  · next children _ =>
    refine (ensures_rebuild_unconditional evaluator data children [] (by simp)).bind
      fun rebuilt plain => .pure ⟨⟨node.isVariable_flatten, plain⟩, fun given => ?_⟩
    exact (Node.isUnconditional_congr rfl).trans (Node.isUnconditional_flatten given)

/-! ## Nothing is left under no address -/

/-- Every node with no queued address at it or above it has been opened. -/
def Confined (document : Node) (queue : List Address) : Prop :=
  ∀ address node, document.at? address = some node →
    (∀ queued ∈ queue, ¬ queued <+: address) → node.IsOpened

theorem Confined.isSettled {document : Node} (confined : Confined document []) :
    document.isSettled = true := by
  refine Node.isSettled_iff.mpr fun node member => ?_
  obtain ⟨address, there⟩ := Node.mem_reachable_iff.mp member
  exact confined address node there (by simp)

/-- Putting a node elsewhere than above another one leaves that one opened. -/
theorem isOpened_of_at?_replaceAt {target address : Address} {document node replacement : Node}
    (found : document.at? target = some node) (aside : ¬ target <+: address)
    (keeps : node.isUnconditional = true → replacement.isUnconditional = true)
    {standing : Node} (there : (document.replaceAt target replacement).at? address = some standing) :
    ∃ before, document.at? address = some before ∧ (before.IsOpened → standing.IsOpened) := by
  induction target generalizing document address with
  | nil => exact absurd List.nil_prefix aside
  | cons position rest ih =>
    obtain ⟨child, present, found⟩ := Option.bind_eq_some_iff.mp found
    cases address with
    | nil =>
      cases there
      refine ⟨document, rfl, fun opened => ⟨opened.flat, fun other member => ?_⟩⟩
      rw [Node.children_replaceAt_cons] at member
      obtain ⟨index, within⟩ := List.mem_iff_getElem?.mp member
      rw [List.getElem?_modify] at within
      obtain ⟨old, standing, rfl⟩ := Option.map_eq_some_iff.mp within
      have plain := opened.plain old (List.mem_of_getElem? standing)
      by_cases here : position = index
      · subst here
        cases standing.symm.trans present
        simp only [↓reduceIte]
        cases rest with
        | nil =>
          cases found
          exact keeps plain
        | cons => exact (Node.isUnconditional_congr rfl).trans plain
      · simpa [here] using plain
    | cons other address =>
      rw [Node.at?, Node.children_replaceAt_cons] at there
      by_cases same : position = other
      · subst same
        rw [List.getElem?_modify_eq, present] at there
        obtain ⟨before, standing, keep⟩ :=
          ih found (fun above => aside (List.cons_prefix_cons.mpr ⟨rfl, above⟩)) there
        exact ⟨before, by rw [Node.at?, present, Option.bind_some, standing], keep⟩
      · rw [List.getElem?_modify_ne _ _ same] at there
        exact ⟨standing, there, id⟩

/-- An address without a node confines nothing. -/
theorem Confined.tail {document : Node} {address : Address} {queue : List Address}
    (confined : Confined document (address :: queue)) (absent : document.at? address = none) :
    Confined document queue := by
  intro other node there free
  refine confined other node there fun queued member => ?_
  rcases List.mem_cons.mp member with rfl | later
  · rintro ⟨rest, rfl⟩
    rw [Node.at?_append, absent] at there
    cases there
  · exact free queued later

/-- What is not settled below a node that has been opened is under its children. -/
theorem Confined.step {document node opened : Node} {address : Address} {queue : List Address}
    (confined : Confined document (address :: queue)) (found : document.at? address = some node)
    (done : opened.IsOpened)
    (keeps : node.isUnconditional = true → opened.isUnconditional = true) :
    Confined (document.replaceAt address opened) (queue ++ opened.childAddresses address) := by
  intro other standing there free
  by_cases above : address <+: other
  · obtain ⟨rest, rfl⟩ := above
    rw [Node.at?_append, Node.at?_replaceAt found, Option.bind_some] at there
    cases rest with
    | nil =>
      cases there
      exact done
    | cons position rest =>
      -- the address of the child on the way is queued
      obtain ⟨child, present, -⟩ := Option.bind_eq_some_iff.mp there
      have queued : address ++ [position] ∈ opened.childAddresses address :=
        List.mem_map.mpr ⟨position, List.mem_range.mpr
          (List.getElem?_eq_some_iff.mp present).1, rfl⟩
      exact absurd ⟨rest, by simp⟩ (free _ (List.mem_append_right _ queued))
  · obtain ⟨before, old, keep⟩ := isOpened_of_at?_replaceAt found above keeps there
    refine keep (confined other before old fun queued member => ?_)
    rcases List.mem_cons.mp member with rfl | later
    · exact above
    · exact free queued (List.mem_append_left _ later)

theorem walk_cons_of_ok {bound : Nat} {document node opened replaced : Node} {address : Address}
    {queue later : List Address} {session next : Session σ} (low : document.height ≤ bound)
    (found : document.at? address = some node)
    (done : openNode evaluator data node session = (.ok opened, next))
    (same : document.replaceAt address opened = replaced)
    (queued : queue ++ opened.childAddresses address = later) :
    ∃ lower : replaced.height ≤ bound,
      walk evaluator data document low (address :: queue) session =
        walk evaluator data replaced lower later next := by
  subst same queued
  have opens := ensures_openNode evaluator data node session opened next done
  refine ⟨Nat.le_trans (Node.height_replaceAt found opens) low, ?_⟩
  -- the function is compared before it is applied, since the session is no part of the question
  have unfolded : walk evaluator data document low (address :: queue) =
      ((openNode evaluator data node).certified _ (ensures_openNode evaluator data node) >>=
        fun opened => walk evaluator data (document.replaceAt address opened.1)
          (Nat.le_trans (Node.height_replaceAt found opened.2) low)
          (queue ++ opened.1.childAddresses address)) := by
    rw [walk]
    split
    · next absent => cases absent.symm.trans found
    · next other present =>
      cases found.symm.trans present
      rfl
  rw [unfolded, Preparing.bind_apply, Preparing.certified_of_ok done]

theorem ensures_walk_isSettled {bound : Nat} (document : Node) (low : document.height ≤ bound)
    (queue : List Address) (confined : Confined document queue) :
    (walk evaluator data document low queue).Ensures fun prepared => prepared.isSettled = true := by
  fun_induction walk evaluator data document low queue with
  | case1 document low => exact .pure confined.isSettled
  | case2 document low address queue absent ih => exact ih (confined.tail absent)
  | case3 document low address queue node found ih =>
    have opens := ensures_openNode_isOpened evaluator data node
    exact (Preparing.Ensures.certified opens).bind fun ⟨opened, lower⟩ ⟨done, keeps⟩ =>
      ih opened lower (confined.step found done keeps)

/-! ## Settled documents stay as they are -/

theorem rebuild_of_unconditional (pending rebuilt : List Node)
    (plain : ∀ node ∈ pending, node.isUnconditional = true) :
    rebuild evaluator data pending rebuilt = pure (rebuilt ++ pending) := by
  induction pending generalizing rebuilt with
  | nil => rw [rebuild, List.append_nil]
  | cons child rest ih =>
    obtain ⟨shown, single⟩ := Node.isUnconditional_iff.mp (plain child List.mem_cons_self)
    rw [rebuild, Node.isShown_of_none shown, liftM_pure, pure_bind,
      Node.withoutCondition_of_none shown]
    simp only [↓reduceIte, single]
    rw [ih _ fun node member => plain node (List.mem_cons_of_mem _ member), List.append_assoc,
      List.singleton_append]

theorem openNode_of_isOpened {node : Node} (opened : node.IsOpened) :
    openNode evaluator data node = pure node := by
  have flat := Node.flatten_of_not_isVariable opened.flat
  unfold openNode
  split
  · rw [flat]
  · next children present =>
    rw [flat] at present ⊢
    have whole : node.children = children := by rw [Node.children, present]; rfl
    rw [rebuild_of_unconditional evaluator data children [] (whole ▸ opened.plain), pure_bind,
      List.nil_append, ← present]
    obtain ⟨kind, attrs, marks, content, text, extra⟩ := node
    rfl

theorem replaceAt_self {document node : Node} {address : Address}
    (found : document.at? address = some node) : document.replaceAt address node = document := by
  induction address generalizing document with
  | nil =>
    cases found
    rfl
  | cons position rest ih =>
    obtain ⟨child, present, inner⟩ := Option.bind_eq_some_iff.mp found
    obtain ⟨kind, attrs, marks, content, text, extra⟩ := document
    cases content with
    | none => rfl
    | some nodes =>
      change nodes[position]? = some child at present
      have same : nodes.modify position (Node.replaceAt · rest node) = nodes := by
        apply List.ext_getElem?
        intro index
        rw [List.getElem?_modify]
        by_cases here : position = index
        · subst here
          simp [present, ih inner]
        · simp [here]
      simp only [Node.replaceAt, Option.map_some, same]

theorem walk_of_isSettled {bound : Nat} (document : Node) (low : document.height ≤ bound)
    (queue : List Address) (settled : document.isSettled = true) :
    walk evaluator data document low queue = pure document := by
  fun_induction walk evaluator data document low queue with
  | case1 document low => rfl
  | case2 document low address queue absent ih => exact ih settled
  | case3 document low address queue node found ih =>
    have opened : node.IsOpened :=
      Node.isSettled_iff.mp settled node (Node.mem_reachable_iff.mpr ⟨address, found⟩)
    have same := replaceAt_self found
    funext session
    have done : openNode evaluator data node session = (.ok node, session) := by
      rw [openNode_of_isOpened evaluator data opened]
      rfl
    rw [Preparing.bind_apply, Preparing.certified_of_ok done]
    have rest := ih node (Nat.le_refl _) (same.symm ▸ settled)
    exact (congrFun rest session).trans (by rw [same])

end Opening

/-- Whatever an evaluator answers, a document that has been prepared is settled. A document that is
settled is given back as it is, and nobody is asked. So whoever is asked afterwards, preparing a
document a second time changes nothing. -/
theorem prepare_settles {σ : Type} (evaluator : Evaluator σ) (data : Json) (document : Node) :
    (∀ session prepared, (prepare evaluator data document session).1 = .ok prepared →
      prepared.isSettled = true) ∧
    (document.isSettled = true → prepare evaluator data document = pure document) ∧
    ∀ session prepared, (prepare evaluator data document session).1 = .ok prepared →
      ∀ {τ : Type} (other : Evaluator τ) (otherData : Json),
        prepare other otherData prepared = pure prepared := by
  have settles : (prepare evaluator data document).Ensures
      fun prepared => prepared.isSettled = true :=
    ensures_walk_isSettled evaluator data document (Nat.le_refl _) [[]]
      fun _ _ _ free => absurd List.nil_prefix (free [] List.mem_cons_self)
  have settled : ∀ session prepared, (prepare evaluator data document session).1 = .ok prepared →
      prepared.isSettled = true := fun session prepared done =>
    settles session prepared _ (Prod.ext done rfl)
  refine ⟨settled, walk_of_isSettled evaluator data document (Nat.le_refl _) [[]], ?_⟩
  intro session prepared done τ other otherData
  exact walk_of_isSettled other otherData prepared (Nat.le_refl _) [[]]
    (settled session prepared done)

/-! A paragraph with a variable in it, which is a text when it has been prepared. -/

/-- An evaluator that refuses everything. -/
def refusing : Evaluator Unit where
  render _ _ := pure (.error (.render "refused"))
  check _ := pure (.error (.parse "refused"))

/-- A paragraph with some content. -/
def paragraphOf (content : List Node) : Node :=
  { Node.ofKind "paragraph" with content := some content }

/-- A variable of some path. -/
def variableOf (path : String) : Node :=
  { Node.ofKind "variable" with attrs := some [("id", .string path)] }

theorem prepare_paragraphOf_variableOf :
    (prepare refusing .null (paragraphOf [variableOf "payload.name"]) ⟨(), .zero⟩).1 =
      .ok (paragraphOf [Node.ofText "payload.name"]) := by
  have outer : openNode refusing .null (paragraphOf [variableOf "payload.name"]) =
      pure (paragraphOf [variableOf "payload.name"]) :=
    openNode_of_isOpened refusing .null ⟨rfl, by simp [paragraphOf, Node.children]; rfl⟩
  have inner : openNode refusing .null (variableOf "payload.name") =
      pure (Node.ofText "payload.name") := rfl
  have first : ∃ lower, walk refusing .null (paragraphOf [variableOf "payload.name"]) (Nat.le_refl _)
      [[]] ⟨(), .zero⟩ = walk refusing .null (paragraphOf [variableOf "payload.name"]) lower [[0]]
        ⟨(), .zero⟩ := walk_cons_of_ok refusing .null _ rfl (congrFun outer _) rfl rfl
  obtain ⟨lower, first⟩ := first
  have second : ∃ lowest, walk refusing .null (paragraphOf [variableOf "payload.name"]) lower [[0]]
      ⟨(), .zero⟩ = walk refusing .null (paragraphOf [Node.ofText "payload.name"]) lowest []
        ⟨(), .zero⟩ := walk_cons_of_ok refusing .null lower rfl (congrFun inner _) rfl rfl
  obtain ⟨lowest, second⟩ := second
  rw [prepare, first, second, walk]
  rfl

theorem prepare_settles_paragraphOf :
    (paragraphOf [Node.ofText "payload.name"]).isSettled = true ∧
      ∀ {τ : Type} (other : Evaluator τ) (data : Json),
        prepare other data (paragraphOf [Node.ofText "payload.name"]) =
          pure (paragraphOf [Node.ofText "payload.name"]) :=
  let settles := prepare_settles refusing .null (paragraphOf [variableOf "payload.name"])
  ⟨settles.1 _ _ prepare_paragraphOf_variableOf, settles.2.2 _ _ prepare_paragraphOf_variableOf⟩

end MessageTemplate.Document
