import Mathlib.Data.List.Forall2
import MessageTemplate.Proofs.Document.Outputs

/-! # What wrapping changes, and that it does so once

A pair of attributes that has been applied is done: its flag is not set any more, or its attribute is an
output or is not to be wrapped, and the flag stays (`isDone_applyPair`). As pairs do not touch each
other, all pairs of a node are done in the end, and applying them again changes nothing
(`applyAttrs_applyAttrs`). Whatever is wrapped and cleared, only attributes that pairs touch get other
values, and no attribute comes up or vanishes (`alike_apply`). -/

namespace MessageTemplate.Document

open Text

variable {policy : OutputPolicy} {kind key : String} {given attrs : Keyed Json}
  {pair : AttributePair} {pairs : List AttributePair}

/-! ## Pairs that are done -/

/-- Whether nothing is left to do for a pair: if its flag is set and its attribute is a text that is not
empty, the text is an output already or is not to be wrapped, and the flag is not to be cleared. -/
def OutputPolicy.IsDone (policy : OutputPolicy) (kind : String) (attrs : Keyed Json)
    (pair : AttributePair) : Prop :=
  isSet (Keyed.get? pair.flag attrs) = true →
    ∀ value, nonemptyText? attrs pair.key = some value →
      (policy.wraps kind pair.key value = true → occurs outputOpening value.toList = true) ∧
        policy.clears pair.flag = false

/-- A pair that is done changes nothing. -/
theorem applyPair_of_isDone (done : policy.IsDone kind attrs pair) :
    policy.applyPair kind given attrs pair = attrs := by
  unfold OutputPolicy.applyPair
  split
  · rfl
  next set =>
  split
  · rfl
  next value held =>
  obtain ⟨wrapped, kept⟩ := done (by simpa using set) value held
  have idle : (policy.wraps kind pair.key value && !occurs outputOpening value.toList) = false := by
    cases wraps : policy.wraps kind pair.key value with
    | false => rfl
    | true => simp [wrapped wraps]
  simp only [idle, kept, Bool.false_eq_true, if_false]

theorem occurs_attributeOutput (given : Keyed Json) (key value : String) :
    occurs outputOpening (attributeOutput given key value).toList = true := by
  have opened (inside : String) : occurs outputOpening (outputOf inside).toList = true := by
    rw [Json.toList_outputOf]
    rfl
  have wrapped (path : String) (fallback : Option String) :
      occurs outputOpening (wrapOutput path fallback).toList = true := by
    rw [wrapOutput]
    split
    · exact opened _
    · exact opened _
  rw [attributeOutput]
  split
  · exact wrapped _ _
  · exact wrapped _ _

/-- A pair that has been applied is done. If its flag has been cleared it is not set any more, also if
it was an output just before; else the attribute is an output, or it has not been wrapped. -/
theorem isDone_applyPair : policy.IsDone kind (policy.applyPair kind given attrs pair) pair := by
  unfold OutputPolicy.applyPair
  split
  · next unset => exact fun set => absurd set (by simpa using unset)
  split
  · next none => exact fun _ value held => absurd held (by simp [none])
  next value held =>
  dsimp only
  cases clears : policy.clears pair.flag with
  | true =>
    -- The flag is off whatever was wrapped, also if it is the attribute itself.
    rw [if_pos rfl]
    intro set
    rw [Keyed.get?_insert_self] at set
    contradiction
  | false =>
    rw [if_neg Bool.false_ne_true]
    refine fun _ other found => ⟨fun wraps => ?_, clears⟩
    split at found
    · rw [nonemptyText?, Keyed.get?_insert_self] at found
      obtain ⟨same, -⟩ := Option.filter_eq_some_iff.mp found
      cases same
      exact occurs_attributeOutput _ _ _
    · next idle =>
      obtain rfl := Option.some.inj (held.symm.trans found)
      simpa [wraps] using idle

/-- Whether a pair is done depends on the attributes that it touches. -/
theorem OutputPolicy.IsDone.congr {others : Keyed Json}
    (same : ∀ key ∈ pair.touched, Keyed.get? key others = Keyed.get? key attrs)
    (done : policy.IsDone kind attrs pair) : policy.IsDone kind others pair := by
  have value := same pair.key List.mem_cons_self
  have flag := same pair.flag (List.mem_cons_of_mem _ List.mem_cons_self)
  rw [OutputPolicy.IsDone, nonemptyText?, value, flag]
  exact done

/-- Pairs that do not touch each other are done once all of them have been applied. -/
theorem isDone_foldl_applyPair (apart : pairs.Pairwise AttributePair.Apart) (listed : pair ∈ pairs) :
    policy.IsDone kind (pairs.foldl (policy.applyPair kind given) attrs) pair := by
  obtain ⟨before, -, result⟩ := exists_applyPair_of_mem apart listed
  exact isDone_applyPair.congr result

theorem foldl_applyPair_of_isDone (done : ∀ pair ∈ pairs, policy.IsDone kind attrs pair) :
    pairs.foldl (policy.applyPair kind given) attrs = attrs := by
  induction pairs with
  | nil => rfl
  | cons pair rest ih =>
    obtain ⟨first, others⟩ := List.forall_mem_cons.mp done
    rw [List.foldl_cons, applyPair_of_isDone first, ih others]

theorem applyAttrs_applyAttrs (attrs : Keyed Json) :
    policy.applyAttrs kind (policy.applyAttrs kind attrs) = policy.applyAttrs kind attrs :=
  foldl_applyPair_of_isDone fun _ listed => isDone_foldl_applyPair (pairwise_apart _) listed

mutual

/-- Wrapping a document a second time changes nothing. -/
theorem apply_apply : (node : Node) → policy.apply (policy.apply node) = policy.apply node
  | ⟨kind, attrs, marks, content, text, extra⟩ => by
    rw [apply_eq ⟨kind, attrs, marks, content, text, extra⟩, apply_eq]
    congr 1
    · cases attrs with
      | none => rfl
      | some attrs => exact congrArg some (applyAttrs_applyAttrs attrs)
    · cases marks with
      | none => rfl
      | some nodes => exact congrArg some (map_apply_map_apply nodes)
    · cases content with
      | none => rfl
      | some nodes => exact congrArg some (map_apply_map_apply nodes)

theorem map_apply_map_apply : (nodes : List Node) →
    (nodes.map policy.apply).map policy.apply = nodes.map policy.apply
  | [] => rfl
  | node :: rest => by
    rw [List.map_cons, List.map_cons, apply_apply node, map_apply_map_apply rest]

end

/-! ## What stays -/

/-- Attributes of nodes of a kind with the same keys. Under a key that no pair of the kind touches they
have the same value. -/
structure Kind.Alike (kind : Kind) (left right : Keyed Json) : Prop where
  keys (key : String) : Keyed.has key left = Keyed.has key right
  others (key : String) : (∀ pair ∈ kind.pairs ++ commonPairs, key ∉ pair.touched) →
    Keyed.get? key left = Keyed.get? key right

/-- Documents that differ at most in attributes that pairs touch. The trees of their nodes and marks
have the same shape, and the nodes and marks at the same places have the same types, texts and further
fields and the same attributes, but for the values that the pairs of their kinds touch. -/
inductive Node.Alike : Node → Node → Prop where
  | node {kind : String} {attrs attrs' : Option (Keyed Json)}
      {marks marks' content content' : Option (List Node)} {text : Option String}
      {extra : List (String × Json)} :
      Option.Rel (Kind.ofName kind).Alike attrs attrs' →
      Option.Rel (List.Forall₂ Node.Alike) marks marks' →
      Option.Rel (List.Forall₂ Node.Alike) content content' →
      Node.Alike ⟨kind, attrs, marks, content, text, extra⟩
        ⟨kind, attrs', marks', content', text, extra⟩

/-- A pair puts values only where there are some. -/
theorem has_applyPair :
    Keyed.has key (policy.applyPair kind given attrs pair) = Keyed.has key attrs := by
  unfold OutputPolicy.applyPair
  split
  · rfl
  next set =>
  split
  · rfl
  next value held =>
  have flag : Keyed.has pair.flag attrs = true := by
    cases found : Keyed.get? pair.flag attrs with
    | none => simp [found, isSet] at set
    | some _ => rw [Keyed.has, found]; rfl
  have name : Keyed.has pair.key attrs = true := by
    rw [Keyed.has, get?_of_nonemptyText? held]
    rfl
  dsimp only
  split
  · split
    · rw [Keyed.has_insert_of_has ((Keyed.has_insert_of_has name).trans flag),
        Keyed.has_insert_of_has name]
    · rw [Keyed.has_insert_of_has flag]
  · split
    · rw [Keyed.has_insert_of_has name]
    · rfl

theorem has_foldl_applyPair :
    Keyed.has key (pairs.foldl (policy.applyPair kind given) attrs) = Keyed.has key attrs := by
  induction pairs generalizing attrs with
  | nil => rfl
  | cons pair rest ih => rw [List.foldl_cons, ih, has_applyPair]

theorem alike_applyAttrs (attrs : Keyed Json) :
    (Kind.ofName kind).Alike attrs (policy.applyAttrs kind attrs) where
  keys _ := has_foldl_applyPair.symm
  others _ apart := (get?_foldl_applyPair_of_ne apart).symm

mutual

theorem alike_apply : (node : Node) → Node.Alike node (policy.apply node)
  | ⟨kind, attrs, marks, content, text, extra⟩ => by
    rw [apply_eq]
    refine .node ?_ ?_ ?_
    · cases attrs with
      | none => exact .none
      | some attrs => exact .some (alike_applyAttrs attrs)
    · cases marks with
      | none => exact .none
      | some nodes => exact .some (alike_map_apply nodes)
    · cases content with
      | none => exact .none
      | some nodes => exact .some (alike_map_apply nodes)

theorem alike_map_apply : (nodes : List Node) →
    List.Forall₂ Node.Alike nodes (nodes.map policy.apply)
  | [] => .nil
  | node :: rest => .cons (alike_apply node) (alike_map_apply rest)

end

/-- Whatever a policy wraps and clears, a document that has been wrapped stays as it is when it is
wrapped again, and it differs from what it was at most in attributes that pairs touch. -/
theorem apply_settles (policy : OutputPolicy) (document : Node) :
    policy.apply (policy.apply document) = policy.apply document ∧
      document.Alike (policy.apply document) :=
  ⟨apply_apply document, alike_apply document⟩

end MessageTemplate.Document
