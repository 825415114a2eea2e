import MessageTemplate.Document.Address
import Mathlib.Data.List.Basic

/-! # Nodes at addresses that do not meet

Two addresses are apart if neither leads on from the other. What is put at one of them is not
seen at the other, so that it makes no difference which is replaced first. -/

namespace MessageTemplate.Document

/-- Neither address leads on from the other. -/
def Apart (left right : Address) : Prop := ¬ left <+: right ∧ ¬ right <+: left

theorem Apart.symm {left right : Address} (apart : Apart left right) : Apart right left :=
  ⟨apart.2, apart.1⟩

theorem apart_cons_iff {left right : Address} {position : Nat} :
    Apart (position :: left) (position :: right) ↔ Apart left right := by
  simp [Apart, List.cons_prefix_cons]

theorem apart_append_singleton {address other : Address} {position : Nat}
    (apart : Apart other address) : Apart other (address ++ [position]) := by
  refine ⟨fun below => ?_, fun above => ?_⟩
  · rcases List.prefix_concat_iff.mp below with same | before
    · exact apart.2 (same ▸ List.prefix_append _ _)
    · exact apart.1 before
  · exact apart.2 ((List.prefix_append _ _).trans above)

theorem apart_of_ne {first second : Nat} (different : first ≠ second) (address : Address) :
    Apart (address ++ [first]) (address ++ [second]) := by
  induction address with
  | nil => simp [Apart, List.cons_prefix_cons, different, different.symm]
  | cons position address ih => exact apart_cons_iff.mpr ih

/-- Addresses stay apart when the first one gives way to those of the children there. -/
theorem pairwise_apart_childAddresses {address : Address} {queue : List Address}
    (apart : (address :: queue).Pairwise Apart) (node : Node) :
    (queue ++ node.childAddresses address).Pairwise Apart := by
  obtain ⟨first, others⟩ := List.pairwise_cons.mp apart
  refine List.pairwise_append.mpr ⟨others, ?_, fun other queued child below => ?_⟩
  · rw [Node.childAddresses, List.pairwise_map]
    exact List.nodup_range.imp fun different => apart_of_ne different address
  · obtain ⟨position, -, rfl⟩ := List.mem_map.mp below
    exact apart_append_singleton (first other queued).symm

namespace Node

/-- The node with other children, if it may have any. -/
def withChildren (node : Node) (children : List Node) : Node :=
  { node with content := node.content.map fun _ => children }

@[simp] theorem withChildren_children (node : Node) : node.withChildren node.children = node := by
  obtain ⟨kind, attrs, marks, content, text, extra⟩ := node
  cases content <;> rfl

theorem children_replaceAt_cons (node replacement : Node) (position : Nat) (rest : Address) :
    (node.replaceAt (position :: rest) replacement).children =
      node.children.modify position (replaceAt · rest replacement) := by
  obtain ⟨kind, attrs, marks, content, text, extra⟩ := node
  cases content with
  | none => simp [children, replaceAt]
  | some nodes => rfl

theorem at?_append (document : Node) (address rest : Address) :
    document.at? (address ++ rest) = (document.at? address).bind (·.at? rest) := by
  induction address generalizing document with
  | nil => rfl
  | cons position address ih =>
    simp only [List.cons_append, at?, Option.bind_assoc, ih]

theorem at?_replaceAt {document node : Node} {address : Address}
    (found : document.at? address = some node) (replacement : Node) :
    (document.replaceAt address replacement).at? address = some replacement := by
  induction address generalizing document with
  | nil => rfl
  | cons position rest ih =>
    obtain ⟨child, present, found⟩ := Option.bind_eq_some_iff.mp found
    rw [at?, children_replaceAt_cons, List.getElem?_modify_eq, present]
    exact ih found

theorem replaceAt_append (document outer inner : Node) (address rest : Address) :
    (document.replaceAt address outer).replaceAt (address ++ rest) inner =
      document.replaceAt address (outer.replaceAt rest inner) := by
  induction address generalizing document with
  | nil => rfl
  | cons position address ih =>
    simp only [List.cons_append, replaceAt, Option.map_map]
    congr 2
    funext nodes
    rw [Function.comp_apply, List.modify_modify_eq]
    exact congrArg (nodes.modify position) (funext ih)

theorem at?_replaceAt_of_apart {left right : Address} (apart : Apart left right)
    (document replacement : Node) :
    (document.replaceAt left replacement).at? right = document.at? right := by
  induction left generalizing document right with
  | nil => exact absurd List.nil_prefix apart.1
  | cons position left ih =>
    cases right with
    | nil => exact absurd List.nil_prefix apart.2
    | cons other right =>
      rw [at?, at?, children_replaceAt_cons]
      by_cases same : position = other
      · subst same
        rw [List.getElem?_modify_eq, Option.map_eq_map, Option.bind_map]
        exact congrArg _ (funext (ih (apart_cons_iff.mp apart)))
      · rw [List.getElem?_modify_ne _ _ same]

theorem replaceAt_comm {left right : Address} (apart : Apart left right)
    (document first second : Node) :
    (document.replaceAt left first).replaceAt right second =
      (document.replaceAt right second).replaceAt left first := by
  induction left generalizing document right with
  | nil => exact absurd List.nil_prefix apart.1
  | cons position left ih =>
    cases right with
    | nil => exact absurd List.nil_prefix apart.2
    | cons other right =>
      simp only [replaceAt, Option.map_map]
      congr 2
      funext nodes
      rw [Function.comp_apply, Function.comp_apply]
      by_cases same : position = other
      · subst same
        rw [List.modify_modify_eq, List.modify_modify_eq]
        exact congrArg (nodes.modify position) (funext (ih (apart_cons_iff.mp apart)))
      · rw [List.modify_modify_ne _ _ _ same]

end Node

end MessageTemplate.Document
