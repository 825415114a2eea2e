import MessageTemplate.Document.Node

/-! # Addresses of nodes

A node of a document is found by the positions that lead to it from the root, each among the
children of the node before. -/

namespace MessageTemplate.Document

/-- The positions that lead from the root to a node. -/
abbrev Address := List Nat

namespace Node

/-- The children of a node. -/
def children (node : Node) : List Node := node.content.getD []

/-- The node at an address. -/
def at? : Node → Address → Option Node
  | node, [] => some node
  | node, position :: rest => node.children[position]?.bind fun child => at? child rest

/-- Puts a node at an address. -/
def replaceAt : Node → Address → (replacement : Node) → Node
  | _, [], replacement => replacement
  | node, position :: rest, replacement =>
    { node with content := node.content.map fun children =>
        children.modify position fun child => replaceAt child rest replacement }

/-- The addresses of the children of a node with some address. -/
def childAddresses (node : Node) (address : Address) : List Address :=
  (List.range node.children.length).map fun position => address ++ [position]

end Node

theorem height_le_heights {node : Node} {nodes : List Node} (member : node ∈ nodes) :
    node.height ≤ heights nodes := by
  induction nodes with
  | nil => exact absurd member List.not_mem_nil
  | cons first rest ih =>
    rw [heights]
    rcases List.mem_cons.mp member with rfl | later
    · exact Nat.le_max_left _ _
    · exact Nat.le_trans (ih later) (Nat.le_max_right _ _)

theorem heights_le_iff {nodes : List Node} {bound : Nat} :
    heights nodes ≤ bound ↔ ∀ node ∈ nodes, node.height ≤ bound := by
  induction nodes with
  | nil => simp [heights]
  | cons first rest ih => rw [heights, Nat.max_le, ih, List.forall_mem_cons]

namespace Node

theorem height_eq (node : Node) : node.height = heights node.children + 1 := by
  obtain ⟨kind, attrs, marks, content, text, extra⟩ := node
  cases content <;> simp [height, children, heights]

/-- Children nest less deeply than their node. -/
theorem height_lt_of_mem_children {node child : Node} (member : child ∈ node.children) :
    child.height < node.height := by
  rw [node.height_eq]
  exact Nat.lt_succ_of_le (height_le_heights member)

/-- The node at an address nests less deeply than the document, by the length of the address. -/
theorem height_at? {address : Address} {document node : Node}
    (found : document.at? address = some node) :
    node.height + address.length ≤ document.height := by
  induction address generalizing document with
  | nil =>
    cases found
    exact Nat.le_refl _
  | cons position rest ih =>
    obtain ⟨child, present, found⟩ := Option.bind_eq_some_iff.mp found
    have := ih found
    have := height_lt_of_mem_children (List.mem_of_getElem? present)
    rw [List.length_cons]
    omega

/-- A document nests as deep as before, or as deep as what is put into it does where it is put. -/
theorem height_replaceAt_le (document : Node) (address : Address) (replacement : Node) :
    (document.replaceAt address replacement).height ≤
      max document.height (address.length + replacement.height) := by
  induction address generalizing document with
  | nil => exact Nat.le_trans (Nat.le_of_eq (Nat.zero_add _).symm) (Nat.le_max_right _ _)
  | cons position rest ih =>
    obtain ⟨kind, attrs, marks, content, text, extra⟩ := document
    cases content with
    | none => exact Nat.le_max_left _ _
    | some nodes =>
      have below : heights (nodes.modify position (replaceAt · rest replacement)) ≤
          max (heights nodes) (rest.length + replacement.height) := by
        refine heights_le_iff.mpr fun other member => ?_
        obtain ⟨index, within⟩ := List.mem_iff_getElem?.mp member
        rw [List.getElem?_modify] at within
        obtain ⟨old, standing, rfl⟩ := Option.map_eq_some_iff.mp within
        have low := height_le_heights (List.mem_of_getElem? standing)
        have put := ih old
        by_cases here : position = index
        · simp only [here, ↓reduceIte]
          omega
        · simp only [here, ↓reduceIte]
          omega
      rw [height_eq, height_eq, List.length_cons]
      simp only [children, replaceAt, Option.map_some, Option.getD_some]
      omega

/-- A document does not grow when a node in it gives way to one that nests no deeper. -/
theorem height_replaceAt {address : Address} {document node replacement : Node}
    (found : document.at? address = some node) (lower : replacement.height ≤ node.height) :
    (document.replaceAt address replacement).height ≤ document.height := by
  have within := document.height_replaceAt_le address replacement
  have inside := height_at? found
  omega

end Node

end MessageTemplate.Document
