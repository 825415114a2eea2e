import MessageTemplate.Document.Branchwise
import MessageTemplate.Proofs.Evaluator.Calls
import Mathlib.Algebra.Group.Basic
import Mathlib.Control.Monad.Writer
import Mathlib.Tactic.Choose

/-! # Outcomes

With fixed answers, work on a document has an outcome that does not depend on the session: it
fails, or it has a result and adds an amount to a log. Outcomes are a monad, and since amounts are
added in any order, so are outcomes: which of two pieces of work is done first makes no
difference, though in a session it is seen by the evaluator. -/

namespace MessageTemplate.Document

/-- Failure, or a result and what is added to a log. -/
abbrev Outcome (M : Type) := WriterT M Option

namespace Outcome

variable {M α β γ : Type} [CommMonoid M]

theorem bind_comm (first : Outcome M α) (second : Outcome M β) (next : α → β → Outcome M γ) :
    (do let a ← first; let b ← second; next a b) =
      (do let b ← second; let a ← first; next a b) := by
  apply WriterT.ext
  rcases first with _ | ⟨a, amount⟩ <;> rcases second with _ | ⟨b, other⟩
  · rfl
  · rfl
  · rfl
  · change Option.map _ (Option.map _ _) = Option.map _ (Option.map _ _)
    simp only [Option.map_map]
    refine congrArg (Option.map · _) (funext fun result => ?_)
    simp [mul_left_comm]

end Outcome

/-- The evaluator gives fixed answers, and each question adds its weight to a log. -/
structure Logs {σ M : Type} [Mul M] (evaluator : Evaluator σ) (data : Json) (log : σ → M)
    (weight : Call → M) : Prop where
  render : ∀ source, ∃ answer, ∀ state, ∃ next,
    evaluator.render source data state = (answer, next) ∧
      log next = log state * weight (.render source)
  resolve : ∀ expression, ∃ answer, ∀ state, ∃ next,
    evaluator.resolveCollection expression data state = (answer, next) ∧
      log next = log state * weight (.resolve expression)

namespace Preparing

variable {σ M α β : Type}

/-- In every session the work fails, or in every session it has the same result and adds the same
amount to the log. -/
inductive ComesTo [Mul M] (log : σ → M) (work : Preparing σ α) : Outcome M α → Prop where
  | failure (each : ∀ session, ∃ cause next, work session = (.error cause, next)) :
      ComesTo log work (WriterT.mk none)
  | success {result : α} {amount : M}
      (each : ∀ session, ∃ next, work session = (.ok result, next) ∧
        log next.evaluator = log session.evaluator * amount) :
      ComesTo log work (WriterT.mk (some (result, amount)))

variable [CommMonoid M] {log : σ → M} {work : Preparing σ α} {outcome : Outcome M α}

theorem ComesTo.pure (result : α) : ComesTo log (Pure.pure result) (Pure.pure result) :=
  .success fun session => ⟨session, rfl, (mul_one _).symm⟩

theorem ComesTo.bind {next : α → Preparing σ β} {after : α → Outcome M β}
    (first : ComesTo log work outcome) (rest : ∀ result, ComesTo log (next result) (after result)) :
    ComesTo log (work >>= next) (outcome >>= after) := by
  cases first with
  | failure each =>
    apply ComesTo.failure
    intro session
    obtain ⟨cause, stopped, failed⟩ := each session
    exact ⟨cause, stopped, by rw [bind_apply, failed]⟩
  | @success result amount each =>
    have there := rest result
    generalize outcome : after result = final at there
    have joined : (WriterT.mk (some (result, amount)) >>= after : Outcome M β) =
        WriterT.mk (final.run.map fun (last, more) => (last, amount * more)) := by
      rw [← outcome]
      rfl
    rw [joined]
    cases there with
    | failure later =>
      apply ComesTo.failure
      intro session
      obtain ⟨middle, done, -⟩ := each session
      obtain ⟨cause, stopped, failed⟩ := later middle
      exact ⟨cause, stopped, by rw [bind_apply, done]; exact failed⟩
    | success later =>
      apply ComesTo.success
      intro session
      obtain ⟨middle, done, grown⟩ := each session
      obtain ⟨last, finished, added⟩ := later middle
      refine ⟨last, by rw [bind_apply, done]; exact finished, ?_⟩
      rw [added, grown, mul_assoc]

/-- Work has an outcome if its parts have one. -/
theorem exists_comesTo_bind {next : α → Preparing σ β}
    (first : ∃ outcome, ComesTo log work outcome)
    (rest : ∀ result, ∃ outcome, ComesTo log (next result) outcome) :
    ∃ outcome, ComesTo log (work >>= next) outcome := by
  obtain ⟨outcome, comes⟩ := first
  choose after later using rest
  exact ⟨_, comes.bind later⟩

/-- Work has one outcome. -/
theorem ComesTo.unique [IsCancelMul M] [Nonempty σ] {other : Outcome M α}
    (first : ComesTo log work outcome) (second : ComesTo log work other) : outcome = other := by
  have session : Session σ := ⟨Classical.arbitrary σ, .zero⟩
  cases first with
  | failure each =>
    obtain ⟨_, _, failed⟩ := each session
    cases second with
    | failure => rfl
    | success always =>
      obtain ⟨_, done, -⟩ := always session
      cases failed.symm.trans done
  | success each =>
    obtain ⟨_, done, grown⟩ := each session
    cases second with
    | failure always =>
      obtain ⟨_, _, failed⟩ := always session
      cases failed.symm.trans done
    | success always =>
      obtain ⟨_, same, added⟩ := always session
      cases done.symm.trans same
      rw [mul_left_cancel (grown.symm.trans added)]

/-- Two pieces of work with one outcome succeed alike, and then add the same to the log. -/
theorem ComesTo.same_of_ok {other : Preparing σ α} (first : ComesTo log work outcome)
    (second : ComesTo log other outcome) {session : Session σ} {result : α}
    (done : (work session).1 = .ok result) (start : Session σ) :
    ∃ next last, work start = (.ok result, next) ∧ other start = (.ok result, last) ∧
      log next.evaluator = log last.evaluator := by
  cases first with
  | failure each =>
    obtain ⟨_, _, failed⟩ := each session
    rw [failed] at done
    cases done
  | success each =>
    obtain ⟨_, succeeded, -⟩ := each session
    rw [succeeded] at done
    cases done
    obtain ⟨next, finished, grown⟩ := each start
    cases second with
    | success later =>
      obtain ⟨last, ended, added⟩ := later start
      exact ⟨next, last, finished, ended, grown.trans added.symm⟩

/-- What is known of a result makes no difference to the outcome. -/
theorem ComesTo.certified [Nonempty σ] {known : α → Prop} (comes : ComesTo log work outcome)
    (ensures : work.Ensures known) :
    ∃ sure, ComesTo log (work.certified known ensures) sure ∧ Subtype.val <$> sure = outcome := by
  cases comes with
  | failure each =>
    refine ⟨_, .failure fun session => ?_, rfl⟩
    obtain ⟨cause, next, failed⟩ := each session
    exact ⟨cause, next, certified_of_error failed⟩
  | @success result amount each =>
    have holds : known result := by
      obtain ⟨next, done, -⟩ := each ⟨Classical.arbitrary σ, .zero⟩
      exact ensures _ _ _ done
    refine ⟨WriterT.mk (some (⟨result, holds⟩, amount)), .success fun session => ?_, rfl⟩
    obtain ⟨next, done, grown⟩ := each session
    exact ⟨next, certified_of_ok done, grown⟩

theorem ComesTo.certified_bind [Nonempty σ] {known : α → Prop} {ensures : work.Ensures known}
    {next : { result // known result } → Preparing σ β} {after : α → Outcome M β}
    (first : ComesTo log work outcome)
    (rest : ∀ result, ComesTo log (next result) (after result.1)) :
    ComesTo log (work.certified known ensures >>= next) (outcome >>= after) := by
  obtain ⟨sure, comes, rfl⟩ := first.certified ensures
  rw [bind_map_left]
  exact comes.bind rest

/-- Each element of a list in turn. -/
theorem ComesTo.mapM {f : α → Preparing σ β} {g : α → Outcome M β} {list : List α}
    (each : ∀ element ∈ list, ComesTo log (f element) (g element)) :
    ComesTo log (list.mapM f) (list.mapM g) := by
  induction list with
  | nil => exact .pure []
  | cons first rest ih =>
    rw [List.mapM_cons, List.mapM_cons]
    apply (each first List.mem_cons_self).bind
    intro head
    refine (ih fun element member => each element (List.mem_cons_of_mem _ member)).bind
      fun tail => .pure _

theorem exists_comesTo_certified_bind [Nonempty σ] {known : α → Prop} {ensures : work.Ensures known}
    {next : { result // known result } → Preparing σ β}
    (first : ∃ outcome, ComesTo log work outcome)
    (rest : ∀ result, ∃ outcome, ComesTo log (next result) outcome) :
    ∃ outcome, ComesTo log (work.certified known ensures >>= next) outcome := by
  obtain ⟨outcome, comes⟩ := first
  obtain ⟨sure, surely, -⟩ := comes.certified ensures
  exact exists_comesTo_bind ⟨sure, surely⟩ rest

theorem exists_comesTo_mapM {f : α → Preparing σ β} {list : List α}
    (each : ∀ element, ∃ outcome, ComesTo log (f element) outcome) :
    ∃ outcome, ComesTo log (list.mapM f) outcome := by
  choose g comes using each
  exact ⟨_, ComesTo.mapM fun element _ => comes element⟩

end Preparing

/-! ## What the questions come to -/

section Asking

open Preparing

variable {σ M : Type} [CommMonoid M] {evaluator : Evaluator σ} {data : Json} {log : σ → M}
  {weight : Call → M} (logs : Logs evaluator data log weight)

include logs

theorem exists_comesTo_condition (condition : String) :
    ∃ outcome, ComesTo log (liftM (isShown evaluator data condition)) outcome := by
  obtain ⟨answer, always⟩ := logs.render (conditionSource condition)
  have shown : ∃ shown, ∀ session : Session σ, ∃ next,
      isShown evaluator data condition session = (shown, next) ∧ log next.evaluator =
        log session.evaluator * weight (.render (conditionSource condition)) := by
    cases answer with
    | error cause =>
      refine ⟨true, ?_⟩
      intro session
      obtain ⟨next, answered, grown⟩ := always session.evaluator
      exact ⟨⟨next, session.counters.count .conditionFailure⟩,
        by rw [isShown_apply, answered], grown⟩
    | ok rendered =>
      refine ⟨!hides rendered, ?_⟩
      intro session
      obtain ⟨next, answered, grown⟩ := always session.evaluator
      rw [isShown_apply, answered]
      dsimp only
      cases hides rendered with
      | true => exact ⟨⟨next, session.counters.count .hidden⟩, rfl, grown⟩
      | false => exact ⟨⟨next, session.counters⟩, rfl, grown⟩
  obtain ⟨shown, each⟩ := shown
  refine ⟨WriterT.mk (some (shown, weight (.render (conditionSource condition)))),
    .success fun session => ?_⟩
  obtain ⟨next, given, grown⟩ := each session
  exact ⟨next, by rw [liftM_apply, given], grown⟩

theorem exists_comesTo_isShown (node : Node) :
    ∃ outcome, ComesTo log (liftM (node.isShown evaluator data)) outcome := by
  unfold Node.isShown
  split
  · exact ⟨_, .pure true⟩
  · exact exists_comesTo_condition logs _

theorem exists_comesTo_sizeOfCollection (collection : String) :
    ∃ outcome, ComesTo log (sizeOfCollection evaluator data collection) outcome := by
  obtain ⟨answer, always⟩ := logs.resolve collection
  cases answer with
  | error cause =>
    refine ⟨_, .failure fun session => ?_⟩
    obtain ⟨next, answered, -⟩ := always session.evaluator
    exact ⟨_, _, by rw [sizeOfCollection_apply, answered]⟩
  | ok items =>
    refine ⟨WriterT.mk (some (items.length, weight (.resolve collection))),
      .success fun session => ?_⟩
    obtain ⟨next, answered, grown⟩ := always session.evaluator
    exact ⟨⟨next, session.counters.count .expansion⟩,
      by rw [sizeOfCollection_apply, answered], grown⟩

theorem exists_comesTo_rebuild (pending rebuilt : List Node) :
    ∃ outcome, ComesTo log (rebuild evaluator data pending rebuilt) outcome := by
  fun_induction rebuild evaluator data pending rebuilt with
  | case1 rebuilt => exact ⟨_, .pure rebuilt⟩
  | case2 rebuilt child rest keep expand drop =>
    apply exists_comesTo_bind (exists_comesTo_isShown logs child)
    intro shown
    cases shown with
    | false => exact drop
    | true =>
      simp only [↓reduceIte]
      split
      · exact keep
      · next each _ =>
        exact exists_comesTo_bind (exists_comesTo_sizeOfCollection logs (bareExpression each))
          fun size => expand each size

theorem exists_comesTo_openNode (node : Node) :
    ∃ outcome, ComesTo log (openNode evaluator data node) outcome := by
  unfold openNode
  split
  · exact ⟨_, .pure _⟩
  · next children _ =>
    exact exists_comesTo_bind (exists_comesTo_rebuild logs children []) fun _ => ⟨_, .pure _⟩

theorem exists_comesTo_prepareBranchwise [Nonempty σ] (node : Node) :
    ∃ outcome, ComesTo log (prepareBranchwise evaluator data node) outcome := by
  fun_induction prepareBranchwise evaluator data node with
  | case1 node leaf => exact ⟨_, .pure _⟩
  | case2 node children present ih =>
    refine exists_comesTo_certified_bind ?_ fun ⟨replaced, lower⟩ => ?_
    · rw [← rebuild_nil]
      exact exists_comesTo_rebuild logs children []
    refine exists_comesTo_bind ?_ fun prepared => ⟨_, .pure _⟩
    exact exists_comesTo_mapM fun child => ih replaced lower child

end Asking

end MessageTemplate.Document
