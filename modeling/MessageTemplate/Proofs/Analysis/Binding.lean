import MessageTemplate.Analysis.Scope
import MessageTemplate.Proofs.Path.Plain

/-! # What names bind

The operations on plain paths are told by steps (`join_reflects`). The names of a scope are such
paths, and a scope binds a path exactly if it holds one of the paths that the steps begin with, the
path itself included. -/

namespace MessageTemplate.Analysis

open MessageTemplate.Path

/-- A scope of plain paths binds another one exactly if it holds a path that this one begins
with. -/
theorem Scope.binds_join_iff {scope : Scope} {segments : List Segment} (plain : Plain segments)
    (named : ∀ name ∈ scope.names.keys, ∃ steps, Plain steps ∧ join steps = name) :
    scope.binds (join segments) ↔
      ∃ start, start <+: segments ∧ scope.contains (join start) := by
  rw [binds, List.any_eq_true]
  constructor
  · rintro ⟨name, member, leads⟩
    obtain ⟨start, startPlain, rfl⟩ := named name member
    refine ⟨start, ?_, Keyed.has_iff_mem_keys.mpr member⟩
    rw [Bool.or_eq_true, decide_eq_true_eq] at leads
    rcases leads with same | further
    · exact join_injective plain.tidy.legible startPlain.tidy.legible same ▸ List.prefix_refl _
    · exact ((isStrictPrefix_join_iff startPlain.tidy.legible plain.tidy.legible).mp further).1
  · rintro ⟨start, begins, held⟩
    have member := Keyed.has_iff_mem_keys.mp held
    refine ⟨join start, member, ?_⟩
    obtain ⟨steps, stepsPlain, written⟩ := named _ member
    have full : start ≠ [] := by
      rintro rfl
      exact stepsPlain.join_ne_empty written
    have startPlain := plain.of_prefix begins full
    rw [Bool.or_eq_true, decide_eq_true_eq]
    by_cases same : start = segments
    · exact .inl (same ▸ rfl)
    · exact .inr ((isStrictPrefix_join_iff startPlain.tidy.legible plain.tidy.legible).mpr
        ⟨begins, same⟩)

/-- What the operations on plain paths say of their steps: a path is a strict prefix of another one
exactly if its steps are a proper initial part of the steps of that one, without positions it is the
path of its names, its depth is the number of its names, and a scope of plain paths binds it exactly
if the scope holds a path that it begins with. -/
theorem join_reflects {first second : List Segment} {scope : Scope} (plainFirst : Plain first)
    (plainSecond : Plain second)
    (named : ∀ name ∈ scope.names.keys, ∃ steps, Plain steps ∧ join steps = name) :
    (isStrictPrefix (join first) (join second) ↔ first <+: second ∧ first ≠ second) ∧
      stripIndices (join first) = join ((first.filterMap Segment.key?).map .key) ∧
      depth (join first) = (first.filterMap Segment.key?).length ∧
      (scope.binds (join second) ↔
        ∃ start, start <+: second ∧ scope.contains (join start)) :=
  ⟨isStrictPrefix_join_iff plainFirst.tidy.legible plainSecond.tidy.legible,
    stripIndices_join plainFirst.tidy, depth_join plainFirst.tidy.legible,
    Scope.binds_join_iff plainSecond named⟩

/-- An item is no start of the price of another one whose position begins with the same digit; that
price is bound with its own item. -/
theorem join_reflects_price :
    Plain [.key "payload", .key "items", .index 1] ∧
      Plain [.key "payload", .key "items", .index 12, .key "price"] ∧
      ¬isStrictPrefix "payload.items[1]" "payload.items[12].price" ∧
      stripIndices "payload.items[1]" = "payload.items" ∧ depth "payload.items[1]" = 2 ∧
      (Scope.ofList ["payload.item", "payload.items[12]"]).binds "payload.items[12].price" := by
  have plain (rest : List Segment) (clean : ∀ segment ∈ rest, segment.isClean)
      (counts : ∀ position, .index position ∈ rest → position ≤ Text.maxCount) :
      Plain (.key "payload" :: rest) := by
    refine ⟨⟨_, _, rfl⟩, List.forall_mem_cons.mpr ⟨by decide, clean⟩, fun position member => ?_⟩
    exact counts position ((List.mem_cons.mp member).resolve_left nofun)
  have item : Plain [.key "payload", .key "items", .index 1] :=
    plain _ (by decide) (by simp [Text.maxCount])
  have price : Plain [.key "payload", .key "items", .index 12, .key "price"] :=
    plain _ (by decide) (by simp [Text.maxCount])
  have keys : (Scope.ofList ["payload.item", "payload.items[12]"]).names.keys =
      ["payload.item", "payload.items[12]"] := by decide
  have named : ∀ name ∈ (Scope.ofList ["payload.item", "payload.items[12]"]).names.keys,
      ∃ steps, Plain steps ∧ join steps = name := by
    rw [keys]
    simp only [List.mem_cons, List.not_mem_nil, or_false, forall_eq_or_imp, forall_eq]
    exact ⟨⟨_, plain [.key "item"] (by decide) (by simp), by decide⟩,
      ⟨_, plain [.key "items", .index 12] (by decide) (by simp [Text.maxCount]), by decide⟩⟩
  obtain ⟨leads, stripped, deep, bound⟩ := join_reflects item price named
  refine ⟨item, price, fun start => absurd (leads.mp start).1 (by decide), stripped, deep, ?_⟩
  exact bound.mpr ⟨[.key "payload", .key "items", .index 12], by decide, by decide⟩

end MessageTemplate.Analysis
