import Mathlib.Data.List.Basic
import MessageTemplate.Template.Grammar

/-! # Where an open block stands

The machine that builds the tree remembers of an open block what the block will become. What it
remembers is compared with the clauses of the block that are complete and the tag of the one that is
not (`Stands`). A tag goes on a block in the machine exactly if its clause goes on the clauses, and
closing the block gives the node that the rules give for the clauses. -/

namespace MessageTemplate.Template

open Building

namespace Headed

variable {α : Type} {first others : α → Prop} {row : List α} {element : α}

@[simp] theorem singleton : Headed first others [element] ↔ first element := by
  simp [Headed]

/-- A row is continued by an element of the second kind. -/
theorem snoc (started : row ≠ []) :
    Headed first others (row ++ [element]) ↔ Headed first others row ∧ others element := by
  obtain ⟨head, rest, rfl⟩ := List.exists_cons_of_ne_nil started
  simp only [Headed, List.cons_append, List.mem_append, List.mem_singleton, or_imp, forall_and,
    forall_eq, and_assoc]

theorem or_of_mem {row : List α} (headed : Headed first others row) :
    ∀ one ∈ row, first one ∨ others one := by
  cases row with
  | nil => exact headed.elim
  | cons head rest =>
    exact List.forall_mem_cons.mpr ⟨.inl headed.1, fun other member => .inr (headed.2 other member)⟩

end Headed

/-- The tag that opened a block, given its complete clauses and the tag of the next. -/
def openingTag : List (Clause Node) → Tag → Tag
  | [], current => current
  | first :: _, _ => first.tag

@[simp] theorem openingTag_snoc (done : List (Clause Node)) (clause : Clause Node) (tag : Tag) :
    openingTag (done ++ [clause]) tag = openingTag done clause.tag := by
  cases done <;> rfl

/-- What the machine remembers of an open block with some complete clauses, the tag of the one that
is not complete being the current one. -/
inductive Stands : List (Clause Node) → Tag → Block → Prop where
  | condition {kind : ConditionalKind} {done : List (Clause Node)} {current : Tag} :
      Headed (OpensConditional kind) OpensElsif (done.map Clause.tag ++ [current]) →
      Stands done current
        (.conditional kind (done.map Clause.conditioned) (some current.markup) current.token)
  | unconditioned {kind : ConditionalKind} {done : List (Clause Node)} {current : Tag} :
      Headed (OpensConditional kind) OpensElsif (done.map Clause.tag) → current.name = "else" →
      Stands done current (.conditional kind (done.map Clause.conditioned) none current.token)
  | loopBody {kind : LoopKind} {header : LoopHeader} {current : Tag} :
      OpensLoop kind header current → Stands [] current (.loopBody kind header)
  | loopElse {kind : LoopKind} {header : LoopHeader} {first : Clause Node} {current : Tag} :
      OpensLoop kind header first.tag → current.name = "else" →
      Stands [first] current (.loopElse kind header first.body)
  | prelude {current : Tag} :
      OpensCase current → Stands [] current (.case current.markup [] [] .prelude)
  | when {first : Clause Node} {whens : List (Clause Node)} {current : Tag} :
      OpensCase first.tag → (∀ clause ∈ whens, OpensWhen clause.tag) → OpensWhen current →
      Stands (first :: whens) current (.case first.tag.markup (whens.map Clause.when) []
        (.branch (whenValues current.markup) current.token))
  | otherwise {first : Clause Node} {whens : List (Clause Node)} {current : Tag} :
      OpensCase first.tag → (∀ clause ∈ whens, OpensWhen clause.tag) → current.name = "else" →
      Stands (first :: whens) current
        (.case first.tag.markup (whens.map Clause.when) [] .otherwise)
  | capture {target : String} {current : Tag} :
      OpensCapture target current → Stands [] current (.capture target)

namespace Stands

variable {done : List (Clause Node)} {current tag : Tag} {block next : Block} {body : List Node}

/-! ## Closing a block -/

/-- A block becomes the node that the rules give for its clauses. -/
theorem blockRule (stands : Stands done current block) :
    BlockRule (done ++ [⟨current, body⟩]) (closeNode block (openingTag done current) body) := by
  cases stands with
  | @condition kind _ _ headed =>
    have rule := @BlockRule.conditional kind (done ++ [⟨current, body⟩]) [] (by simpa using headed)
      .none
    simpa [closeNode, Clause.conditioned] using rule
  | unconditioned headed name => exact .conditional headed (.otherwise name)
  | loopBody opens => exact @BlockRule.loop _ _ ⟨current, body⟩ [] opens .none
  | @loopElse _ _ first _ opens name =>
    simpa [closeNode, openingTag] using
      @BlockRule.loop _ _ first [⟨current, body⟩] opens (.otherwise name)
  | prelude opens => exact @BlockRule.case ⟨current, body⟩ [] [] opens (by simp) .none
  | @when first whens _ opens branches last =>
    have rule := @BlockRule.case first (whens ++ [⟨current, body⟩]) [] opens
      (by simpa [or_imp, forall_and] using ⟨branches, last⟩) .none
    simpa [closeNode, settleCase, openingTag, Clause.when] using rule
  | @otherwise first whens _ opens branches name =>
    simpa [closeNode, settleCase, openingTag] using
      @BlockRule.case first whens [⟨current, body⟩] opens branches (.otherwise name)
  | capture opens => exact @BlockRule.capture ⟨current, body⟩ _ opens

theorem closingName_eq (stands : Stands done current block) :
    closingName block = "end" ++ (openingTag done current).name := by
  cases stands with
  | condition headed =>
    cases done with
    | nil => simp only [closingName, openingTag, (Headed.singleton.mp headed).1]
    | cons first rest => simp only [closingName, openingTag, headed.1.1]
  | unconditioned headed =>
    cases done with
    | nil => exact headed.elim
    | cons first rest => simp only [closingName, openingTag, headed.1.1]
  | loopBody opens => simp only [closingName, openingTag, opens.1]
  | loopElse opens => simp only [closingName, openingTag, opens.1]
  | prelude opens => simp only [closingName, openingTag, opens.1]; rfl
  | when opens => simp only [closingName, openingTag, opens.1]; rfl
  | otherwise opens => simp only [closingName, openingTag, opens.1]; rfl
  | capture opens => simp only [closingName, openingTag, opens.1]; rfl

/-! ## Going on with a block -/

/-- A tag that goes on a block in the machine goes on its clauses. -/
theorem goOn (stands : Stands done current block)
    (goes : nextBranch? block body tag = some (.ok next)) :
    Stands (done ++ [⟨current, body⟩]) tag next := by
  unfold nextBranch? at goes
  split at goes
  · next name =>
    split at goes
    · simp at goes
    next given =>
    obtain rfl := Except.ok.inj (Option.some.inj goes)
    cases stands with
    | condition headed =>
      have more := @condition _ (done ++ [⟨current, body⟩]) tag (by
        simpa using (Headed.snoc (by simp)).mpr ⟨headed, name, given⟩)
      simpa [Clause.conditioned] using more
  · next name =>
    obtain rfl := Except.ok.inj (Option.some.inj goes)
    cases stands with
    | condition headed =>
      have more := @unconditioned _ (done ++ [⟨current, body⟩]) tag (by simpa using headed) name
      simpa [Clause.conditioned] using more
  · next name =>
    obtain rfl := Except.ok.inj (Option.some.inj goes)
    cases stands with
    | loopBody opens => exact @loopElse _ _ ⟨current, body⟩ tag opens name
  · simp at goes
  · next running name =>
    split at goes
    · simp at goes
    next given =>
    obtain rfl := Except.ok.inj (Option.some.inj goes)
    have opens : OpensWhen tag := ⟨name, by simpa using given⟩
    cases stands with
    | prelude start => exact @when ⟨current, body⟩ [] tag start (by simp) opens
    | @when first whens _ start branches last =>
      have more := @when first (whens ++ [⟨current, body⟩]) tag start
        (by simpa [or_imp, forall_and] using ⟨branches, last⟩) opens
      simpa [settleCase, Clause.when] using more
    | otherwise => exact absurd rfl running
  · next running name =>
    obtain rfl := Except.ok.inj (Option.some.inj goes)
    cases stands with
    | prelude start => exact @otherwise ⟨current, body⟩ [] tag start (by simp) name
    | @when first whens _ start branches last =>
      have more := @otherwise first (whens ++ [⟨current, body⟩]) tag start
        (by simpa [or_imp, forall_and] using ⟨branches, last⟩) name
      simpa [settleCase, Clause.when] using more
    | otherwise => exact absurd rfl running
  · simp at goes

/-- A tag that goes on the clauses goes on the block in the machine. -/
theorem goBack (stands : Stands (done ++ [⟨current, body⟩]) tag next) :
    ∃ block, Stands done current block ∧ nextBranch? block body tag = some (.ok next) := by
  generalize given : done ++ [⟨current, body⟩] = clauses at stands
  cases stands with
  | condition headed =>
    subst given
    rw [List.map_append, Headed.snoc (by simp)] at headed
    obtain ⟨before, name, markup⟩ := headed
    exact ⟨_, condition (by simpa using before),
      by simp [nextBranch?, name, markup, Clause.conditioned]⟩
  | unconditioned headed name =>
    subst given
    exact ⟨_, condition (by simpa using headed), by simp [nextBranch?, name, Clause.conditioned]⟩
  | @loopElse _ _ first _ opens name =>
    cases done with
    | nil =>
      obtain ⟨rfl, -⟩ := List.cons.inj given
      exact ⟨_, loopBody opens, by simp [nextBranch?, name]⟩
    | cons => simp at given
  | @when first whens _ start branches opens =>
    have values : (whenValues tag.markup).isEmpty = false := by simpa using opens.2
    cases done with
    | nil =>
      obtain ⟨rfl, rfl⟩ := List.cons.inj given
      exact ⟨_, prelude start, by simp [nextBranch?, opens.1, values, settleCase]⟩
    | cons first rest =>
      rw [List.cons_append] at given
      obtain ⟨rfl, rfl⟩ := List.cons.inj given
      simp only [List.mem_append, List.mem_singleton, or_imp, forall_and, forall_eq] at branches
      exact ⟨_, when start branches.1 branches.2,
        by simp [nextBranch?, opens.1, values, settleCase, Clause.when]⟩
  | @otherwise first whens _ start branches name =>
    cases done with
    | nil =>
      obtain ⟨rfl, rfl⟩ := List.cons.inj given
      exact ⟨_, prelude start, by simp [nextBranch?, name, settleCase]⟩
    | cons first rest =>
      rw [List.cons_append] at given
      obtain ⟨rfl, rfl⟩ := List.cons.inj given
      simp only [List.mem_append, List.mem_singleton, or_imp, forall_and, forall_eq] at branches
      exact ⟨_, when start branches.1 branches.2,
        by simp [nextBranch?, name, settleCase, Clause.when]⟩
  | loopBody => simp at given
  | prelude => simp at given
  | capture => simp at given

end Stands

/-- A block can be closed where its clauses are those of a block. -/
theorem BlockRule.stands {clauses : List (Clause Node)} {node : Node}
    (rule : BlockRule clauses node) :
    ∃ done current body block, clauses = done ++ [⟨current, body⟩] ∧ Stands done current block ∧
      node = closeNode block (openingTag done current) body := by
  cases rule with
  | @conditional kind clauses last headed final =>
    cases final with
    | none =>
      obtain rfl | ⟨done, ⟨current, body⟩, rfl⟩ := List.eq_nil_or_concat' clauses
      · exact headed.elim
      · exact ⟨done, current, body, _, by simp, .condition (by simpa using headed),
          by simp [closeNode, Clause.conditioned]⟩
    | @otherwise tag body name =>
      exact ⟨clauses, tag, body, _, rfl, .unconditioned headed name, rfl⟩
  | @loop kind header first last opens final =>
    cases final with
    | none => exact ⟨[], first.tag, first.body, _, rfl, .loopBody opens, rfl⟩
    | @otherwise tag body name =>
      exact ⟨[first], tag, body, _, rfl, .loopElse opens name, by simp [closeNode, openingTag]⟩
  | @case first whens last opens branches final =>
    cases final with
    | none =>
      obtain rfl | ⟨whens, ⟨current, body⟩, rfl⟩ := List.eq_nil_or_concat' whens
      · exact ⟨[], first.tag, first.body, _, rfl, .prelude opens, rfl⟩
      · simp only [List.mem_append, List.mem_singleton, or_imp, forall_and, forall_eq] at branches
        exact ⟨first :: whens, current, body, _, by simp, .when opens branches.1 branches.2,
          by simp [closeNode, settleCase, openingTag, Clause.when]⟩
    | @otherwise tag body name =>
      exact ⟨first :: whens, tag, body, _, rfl, .otherwise opens branches name,
        by simp [closeNode, settleCase, openingTag]⟩
  | @capture first target opens =>
    exact ⟨[], first.tag, first.body, _, rfl, .capture opens, rfl⟩

end MessageTemplate.Template
