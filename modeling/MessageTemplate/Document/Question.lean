import MessageTemplate.Document.Address
import MessageTemplate.Document.Hints
import MessageTemplate.Document.Indexing
import MessageTemplate.Session

/-! # What a document asks an evaluator

The show condition of a node and the collection that it is repeated for are put to an evaluator.
This module says how the questions are asked, what the answers mean for a node, and by what a
repeated node is replaced. -/

namespace MessageTemplate

/-- Why a document cannot be prepared: it cannot be read, or a collection cannot be resolved. -/
inductive PreparationError where
  | malformed
  | collection (expression : String) (cause : EvaluatorError)
  deriving DecidableEq, Repr

/-- The wording of an error. -/
def PreparationError.message : PreparationError → String
  | malformed => "Invalid rich document: the text is not a document"
  | collection expression cause =>
    "Failed to resolve repeat collection '" ++ expression ++ "': " ++ cause.message

namespace Document

/-! ## Work that may fail -/

/-- Work on a document, which may fail and goes on with a session. -/
abbrev Preparing (σ : Type) := ExceptT PreparationError (StateM (Session σ))

namespace Preparing

variable {σ α β : Type}

/-- What comes after some work is done with its result, unless the work fails. -/
theorem bind_apply (first : Preparing σ α) (second : α → Preparing σ β) (session : Session σ) :
    (first >>= second) session = match first session with
      | (.ok result, next) => second result next
      | (.error cause, next) => (.error cause, next) := by
  rcases given : first session with ⟨cause | result, next⟩
  · simp [bind, ExceptT.bind, ExceptT.mk, StateT.bind, ExceptT.bindCont, given]; rfl
  · simp [bind, ExceptT.bind, ExceptT.mk, StateT.bind, ExceptT.bindCont, given]

/-- Work that cannot fail. -/
theorem liftM_apply (work : StateM (Session σ) α) (session : Session σ) :
    (liftM work : Preparing σ α) session = (.ok (work session).1, (work session).2) := rfl

/-- Whatever the session, the work has only results of a kind. -/
def Ensures (work : Preparing σ α) (known : α → Prop) : Prop :=
  ∀ session result next, work session = (.ok result, next) → known result

theorem Ensures.pure {known : α → Prop} {result : α} (holds : known result) :
    Ensures (σ := σ) (Pure.pure result) known := by
  intro session other next given
  cases given
  exact holds

theorem Ensures.trivial (work : Preparing σ α) : work.Ensures fun _ => True :=
  fun _ _ _ _ => True.intro

theorem Ensures.bind {first : Preparing σ α} {second : α → Preparing σ β} {known : α → Prop}
    {kept : β → Prop} (ensures : Ensures first known)
    (rest : ∀ result, known result → Ensures (second result) kept) :
    Ensures (first >>= second) kept := by
  intro session result next given
  rw [bind_apply] at given
  split at given
  · next middle after found => exact rest middle (ensures _ _ _ found) _ _ _ given
  · cases given

/-- The work, with what is known of its result. -/
def certified (work : Preparing σ α) (known : α → Prop) (ensures : Ensures work known) :
    Preparing σ { result // known result } := fun session =>
  match given : work session with
  | (.ok result, next) => (.ok ⟨result, ensures session result next given⟩, next)
  | (.error cause, next) => (.error cause, next)

section Certified

variable {work : Preparing σ α} {known : α → Prop} {ensures : work.Ensures known}
  {session next : Session σ}

theorem certified_of_ok {result : α} (given : work session = (.ok result, next)) :
    work.certified known ensures session = (.ok ⟨result, ensures _ _ _ given⟩, next) := by
  unfold certified
  split
  · next found => cases given.symm.trans found; rfl
  · next found => cases given.symm.trans found

theorem certified_of_error {cause : PreparationError}
    (given : work session = (.error cause, next)) :
    work.certified known ensures session = (.error cause, next) := by
  unfold certified
  split
  · next found => cases given.symm.trans found
  · next found => cases given.symm.trans found; rfl

/-- What comes after some work need not know more of its result. -/
theorem certified_bind (after : α → Preparing σ β) :
    (work.certified known ensures >>= fun result => after result.1) = work >>= after := by
  funext session
  rw [bind_apply, bind_apply]
  rcases given : work session with ⟨cause | result, next⟩
  · rw [certified_of_error given]
  · rw [certified_of_ok given]

end Certified

end Preparing

/-! ## Conditions and collections -/

namespace Node

/-- A node without its show condition. -/
def withoutCondition (node : Node) : Node :=
  if node.showCondition?.isSome then node.removeAttr Node.showKey else node

/-- Whether a node is a variable. -/
def isVariable (node : Node) : Bool := node.classify = .variableMark

/-- A variable becomes a text that shows its path; any other node stays as it is. -/
def flatten (node : Node) : Node :=
  if node.isVariable then
    { node with kind := "text", text := some ((node.strAttr? "id").getD ""), attrs := none }
  else node

/-- How many copies a repeated node is replaced by, given the size of its collection. -/
def copies (node : Node) (size : Nat) : Nat :=
  match node.iterations? with
  | some limit => min size limit
  | none => size

/-- The copies that a repeated node is replaced by. -/
def expand (node : Node) (collection : String) (size : Nat) : List Node :=
  indexedCopies collection (node.copies size) node.children

@[simp] theorem children_withoutCondition (node : Node) :
    node.withoutCondition.children = node.children := by
  unfold withoutCondition
  split <;> rfl

@[simp] theorem children_flatten (node : Node) : node.flatten.children = node.children := by
  unfold flatten
  split <;> rfl

theorem height_withoutCondition (node : Node) : node.withoutCondition.height = node.height := by
  rw [height_eq, height_eq, children_withoutCondition]

theorem height_flatten (node : Node) : node.flatten.height = node.height := by
  rw [height_eq, height_eq, children_flatten]

/-- The copies that replace a node nest less deeply than the node. -/
theorem heights_expand_lt (node : Node) (collection : String) (size : Nat) :
    heights (node.expand collection size) < node.height := by
  rw [height_eq]
  exact Nat.lt_succ_of_le (heights_indexedCopies _ _ _)

end Node

/-- The output that a show condition is evaluated by. -/
def conditionSource (condition : String) : String :=
  if Text.occurs outputOpening condition.toList then condition else outputOf condition

/-- Whether a rendered condition means that a node is hidden. -/
def hides (rendered : String) : Bool :=
  let text := Text.trimmed rendered
  text = "" || text = "false"

section Asking

variable {σ : Type} (evaluator : Evaluator σ) (data : Json)

/-- Asks whether a show condition holds. One that cannot be evaluated does. -/
def isShown (condition : String) : StateM (Session σ) Bool := do
  match ← Session.ask (evaluator.render (conditionSource condition) data) with
  | .ok rendered =>
    if hides rendered then
      Session.count .hidden
      return false
    else return true
  | .error _ =>
    Session.count .conditionFailure
    return true

theorem isShown_apply (condition : String) (session : Session σ) :
    isShown evaluator data condition session =
      match evaluator.render (conditionSource condition) data session.evaluator with
      | (.ok rendered, next) =>
        if hides rendered then (false, ⟨next, session.counters.count .hidden⟩)
        else (true, ⟨next, session.counters⟩)
      | (.error _, next) => (true, ⟨next, session.counters.count .conditionFailure⟩) := by
  simp only [isShown, bind, StateT.bind, Session.ask]
  rcases evaluator.render (conditionSource condition) data session.evaluator with
    ⟨cause | rendered, next⟩
  · rfl
  · dsimp only
    cases hides rendered <;> rfl

/-- Asks whether a node is shown. -/
def Node.isShown (node : Node) : StateM (Session σ) Bool :=
  match node.showCondition? with
  | none => pure true
  | some condition => Document.isShown evaluator data condition

/-- Asks for the size of a collection. -/
def sizeOfCollection (collection : String) : Preparing σ Nat := ExceptT.mk do
  match ← Session.ask (evaluator.resolveCollection collection data) with
  | .ok items =>
    Session.count .expansion
    return .ok items.length
  | .error cause => return .error (.collection collection cause)

theorem sizeOfCollection_apply (collection : String) (session : Session σ) :
    sizeOfCollection evaluator data collection session =
      match evaluator.resolveCollection collection data session.evaluator with
      | (.ok items, next) => (.ok items.length, ⟨next, session.counters.count .expansion⟩)
      | (.error cause, next) => (.error (.collection collection cause), ⟨next, session.counters⟩) := by
  simp only [sizeOfCollection, ExceptT.mk, bind, StateT.bind, Session.ask]
  rcases evaluator.resolveCollection collection data session.evaluator with ⟨cause | items, next⟩
  · rfl
  · rfl

end Asking

end Document

end MessageTemplate
