import MessageTemplate.Document.Preparation
import MessageTemplate.Proofs.Evaluator.Calls

/-! # Preparing a document with a recording evaluator

An evaluator that is seen as another one, because part of its state is not looked at, prepares
documents as the other one does. So a record of the questions does not change what comes out. -/

namespace MessageTemplate

/-- The session with only what is seen of the state of the evaluator. -/
def Session.see {σ τ : Type} (seen : τ → σ) (session : Session τ) : Session σ :=
  ⟨seen session.evaluator, session.counters⟩

/-- What is seen of the state, and of the answers, is as with the other evaluator. -/
structure Evaluator.SeenAs {σ τ : Type} (fine : Evaluator τ) (seen : τ → σ) (coarse : Evaluator σ)
    (data : Json) : Prop where
  render : ∀ source state, coarse.render source data (seen state) =
    ((fine.render source data state).1, seen (fine.render source data state).2)
  resolve : ∀ expression state, coarse.resolveCollection expression data (seen state) =
    ((fine.resolveCollection expression data state).1,
      seen (fine.resolveCollection expression data state).2)

theorem Evaluator.recording_seenAs {σ : Type} (evaluator : Evaluator σ) (data : Json) :
    evaluator.recording.SeenAs Prod.fst evaluator data :=
  ⟨fun _ _ => rfl, fun _ _ => rfl⟩

namespace Document

variable {σ τ α β : Type} {seen : τ → σ}

namespace Preparing

/-- What is seen of the work is the other work. -/
def SeenAs (fine : Preparing τ α) (seen : τ → σ) (coarse : Preparing σ α) : Prop :=
  ∀ session, coarse (session.see seen) = ((fine session).1, (fine session).2.see seen)

theorem SeenAs.pure (result : α) :
    SeenAs (Pure.pure result) seen (Pure.pure result) := fun _ => rfl

theorem SeenAs.bind {fine : Preparing τ α} {coarse : Preparing σ α} {next : α → Preparing τ β}
    {after : α → Preparing σ β} (first : fine.SeenAs seen coarse)
    (rest : ∀ result, (next result).SeenAs seen (after result)) :
    (fine >>= next).SeenAs seen (coarse >>= after) := by
  intro session
  rw [bind_apply, bind_apply, first session]
  rcases fine session with ⟨cause | result, last⟩
  · rfl
  · exact rest result last

theorem SeenAs.certified {known : α → Prop} {fine : Preparing τ α} {coarse : Preparing σ α}
    {certain : fine.Ensures known} {ensures : coarse.Ensures known}
    (work : fine.SeenAs seen coarse) :
    (fine.certified known certain).SeenAs seen (coarse.certified known ensures) := by
  intro session
  have same := work session
  rcases given : fine session with ⟨cause | result, last⟩
  · rw [given] at same
    rw [certified_of_error given, certified_of_error same]
  · rw [given] at same
    rw [certified_of_ok given, certified_of_ok same]

end Preparing

open Preparing

variable {fine : Evaluator τ} {coarse : Evaluator σ} {data : Json}
  (same : fine.SeenAs seen coarse data)

section Work

include same

theorem seenAs_isShown (node : Node) :
    SeenAs (liftM (node.isShown fine data)) seen (liftM (node.isShown coarse data)) := by
  unfold Node.isShown
  split
  · exact .pure true
  · next condition _ =>
    intro session
    rw [liftM_apply, liftM_apply, isShown_apply, isShown_apply, Session.see, same.render]
    rcases fine.render (conditionSource condition) data session.evaluator with
      ⟨cause | rendered, state⟩
    · rfl
    · dsimp only
      cases hides rendered <;> rfl

theorem seenAs_sizeOfCollection (collection : String) :
    (sizeOfCollection fine data collection).SeenAs seen
      (sizeOfCollection coarse data collection) := by
  intro session
  rw [sizeOfCollection_apply, sizeOfCollection_apply, Session.see, same.resolve]
  rcases fine.resolveCollection collection data session.evaluator with ⟨cause | items, state⟩
  · rfl
  · rfl

theorem seenAs_rebuild (pending rebuilt : List Node) :
    (rebuild fine data pending rebuilt).SeenAs seen (rebuild coarse data pending rebuilt) := by
  fun_induction rebuild fine data pending rebuilt with
  | case1 rebuilt => rw [rebuild]; exact .pure rebuilt
  | case2 rebuilt child rest keep expand drop =>
    rw [rebuild]
    apply (seenAs_isShown same child).bind
    intro shown
    cases shown with
    | false => exact drop
    | true =>
      simp only [↓reduceIte]
      split
      · exact keep
      · next each _ =>
        exact (seenAs_sizeOfCollection same (bareExpression each)).bind fun size => expand each size

theorem seenAs_openNode (node : Node) :
    (openNode fine data node).SeenAs seen (openNode coarse data node) := by
  unfold openNode
  split
  · exact .pure _
  · exact (seenAs_rebuild same _ []).bind fun rebuilt => .pure _

theorem seenAs_walk {bound : Nat} (document : Node) (low : document.height ≤ bound)
    (queue : List Address) :
    (walk fine data document low queue).SeenAs seen (walk coarse data document low queue) := by
  fun_induction walk fine data document low queue with
  | case1 document low => rw [walk]; exact .pure document
  | case2 document low address queue absent ih =>
    rw [walk]
    split
    · exact ih
    · next found => cases absent.symm.trans found
  | case3 document low address queue node found ih =>
    rw [walk]
    split
    · next absent => cases absent.symm.trans found
    · next other present =>
      cases found.symm.trans present
      exact (seenAs_openNode same node).certified.bind fun ⟨opened, lower⟩ => ih opened lower

end Work

/-- A record of the questions does not change what comes out. -/
theorem prepare_recording (evaluator : Evaluator σ) (data : Json) (document : Node)
    (session : Session (σ × List Call)) :
    (prepare evaluator.recording data document session).1 =
      (prepare evaluator data document ⟨session.evaluator.1, session.counters⟩).1 :=
  (congrArg Prod.fst (seenAs_walk (evaluator.recording_seenAs data) document (Nat.le_refl _) [[]]
    session)).symm

end Document

end MessageTemplate
