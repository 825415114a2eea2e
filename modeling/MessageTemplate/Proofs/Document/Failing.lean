import MessageTemplate.Document.Preparation

/-! # Why a document cannot be prepared

Show conditions that cannot be evaluated keep their node, and nothing else but collections is asked
for. So a preparation fails only where the evaluator cannot resolve a collection, and tells what
the evaluator has told. -/

namespace MessageTemplate.Document

variable {σ α β : Type}

/-! ## Work that fails in known ways -/

namespace Preparing

/-- Whatever the session, the work fails only with errors of a kind. -/
def FailsOnly (work : Preparing σ α) (known : PreparationError → Prop) : Prop :=
  ∀ session cause next, work session = (.error cause, next) → known cause

variable {known : PreparationError → Prop}

theorem FailsOnly.pure (result : α) : FailsOnly (σ := σ) (Pure.pure result) known := by
  intro session cause next given
  cases given

/-- Work that cannot fail. -/
theorem FailsOnly.lift (work : StateM (Session σ) α) :
    FailsOnly (liftM work : Preparing σ α) known := by
  intro session cause next given
  cases given

theorem FailsOnly.bind {first : Preparing σ α} {second : α → Preparing σ β}
    (before : FailsOnly first known) (rest : ∀ result, FailsOnly (second result) known) :
    FailsOnly (first >>= second) known := by
  intro session cause next given
  rw [bind_apply] at given
  split at given
  · next result middle _ => exact rest result middle cause next given
  · next failure middle failed =>
    cases given
    exact before session cause next failed

theorem FailsOnly.certified {work : Preparing σ α} {good : α → Prop}
    {ensures : work.Ensures good} (fails : FailsOnly work known) :
    FailsOnly (work.certified good ensures) known := by
  intro session cause next given
  rcases done : work session with ⟨failure | result, last⟩
  · rw [certified_of_error done] at given
    cases given
    exact fails session cause next done
  · rw [certified_of_ok done] at given
    cases given

end Preparing

/-! ## Collections -/

section Asking

variable (evaluator : Evaluator σ) (data : Json)

/-- The evaluator cannot resolve a collection, for the reason that an error tells. -/
def Unresolved (cause : PreparationError) : Prop :=
  ∃ expression failure state next, cause = .collection expression failure ∧
    evaluator.resolveCollection expression data state = (.error failure, next)

theorem failsOnly_sizeOfCollection (collection : String) :
    (sizeOfCollection evaluator data collection).FailsOnly (Unresolved evaluator data) := by
  intro session cause next given
  rw [sizeOfCollection_apply] at given
  split at given
  · cases given
  · next failure state unresolved =>
    cases given
    exact ⟨collection, failure, session.evaluator, state, rfl, unresolved⟩

theorem failsOnly_rebuild (pending rebuilt : List Node) :
    (rebuild evaluator data pending rebuilt).FailsOnly (Unresolved evaluator data) := by
  fun_induction rebuild evaluator data pending rebuilt with
  | case1 rebuilt => exact .pure rebuilt
  | case2 rebuilt child rest keep expand drop =>
    refine (Preparing.FailsOnly.lift (child.isShown evaluator data)).bind fun shown => ?_
    cases shown with
    | false => exact drop
    | true =>
      simp only [↓reduceIte]
      split
      · exact keep
      · next each _ =>
        exact (failsOnly_sizeOfCollection evaluator data _).bind fun size => expand each size

theorem failsOnly_openNode (node : Node) :
    (openNode evaluator data node).FailsOnly (Unresolved evaluator data) := by
  unfold openNode
  split
  · exact .pure _
  · exact (failsOnly_rebuild evaluator data _ _).bind fun rebuilt => .pure _

theorem failsOnly_walk {bound : Nat} (document : Node) (low : document.height ≤ bound)
    (queue : List Address) :
    (walk evaluator data document low queue).FailsOnly (Unresolved evaluator data) := by
  fun_induction walk evaluator data document low queue with
  | case1 document low => exact .pure document
  | case2 document low address queue absent ih => exact ih
  | case3 document low address queue node found ih =>
    exact (failsOnly_openNode evaluator data node).certified.bind
      fun ⟨opened, lower⟩ => ih opened lower

/-- A document cannot be prepared only if a collection cannot be resolved. -/
theorem failsOnly_prepare (document : Node) :
    (prepare evaluator data document).FailsOnly (Unresolved evaluator data) :=
  failsOnly_walk evaluator data document (Nat.le_refl _) [[]]

end Asking

end MessageTemplate.Document
