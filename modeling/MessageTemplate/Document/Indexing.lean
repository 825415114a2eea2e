import MessageTemplate.Document.Node
import MessageTemplate.Text.Basic

/-! # Reading through an element of a collection

When a node is repeated, the paths in its content that read through the collection are made to
read through one of its elements. -/

namespace MessageTemplate.Document

/-- Characters that a path can go on with. A collection behind one of them is part of a longer
path. -/
def isPathChar (c : Char) : Bool :=
  Text.isAlphanumeric c || c = '_' || c = '-' || c = '.' || c = ']'

/-- A position in brackets. -/
def indexText (index : Nat) : List Char :=
  '[' :: Nat.toDigits 10 index ++ [']']

/-- Whether an occurrence of a collection is a whole path that leads on through a dot. -/
def readsThrough (before after : List Char) : Bool :=
  !before.getLast?.any isPathChar && after.head? = some '.'

/-- Puts a position behind each occurrence of a collection that leads on. -/
def insertIndexIn (collection : List Char) (index : Nat) (text : List Char) : List Char :=
  if collection.isEmpty then text
  else
    match _h : Text.breakOn collection text with
    | none => text
    | some (before, after) =>
      before ++ collection ++ (if readsThrough before after then indexText index else []) ++
        insertIndexIn collection index after
termination_by text.length
decreasing_by
  have := congrArg List.length (Text.breakOn_eq_some _h)
  have : 0 < collection.length := List.length_pos_iff.mpr fun empty => by simp_all
  simp only [List.length_append] at *
  omega

/-- `insertIndexIn` on strings. -/
def insertIndex (value collection : String) (index : Nat) : String :=
  String.ofList (insertIndexIn collection.toList index value.toList)

/-- Indexes an attribute that is a text. -/
def indexAttr (collection : String) (index : Nat) (attrs : Keyed Json) (key : String) :
    Keyed Json :=
  match Keyed.get? key attrs with
  | some (.string value) => Keyed.insert key (.string (insertIndex value collection index)) attrs
  | _ => attrs

/-- Indexes the attributes of a node of some type that may hold paths. -/
def indexAttrs (collection : String) (index : Nat) (kind : String) (attrs : Keyed Json) :
    Keyed Json :=
  ((Kind.ofName kind).dynamicAttributes ++ [Node.showKey, Node.eachKey]).foldl
    (indexAttr collection index) attrs

mutual

/-- Indexes the paths in a node and in all nodes below it, in content and marks. -/
def indexPaths (collection : String) (index : Nat) : Node → Node
  | ⟨kind, attrs, marks, content, text, extra⟩ =>
    { kind := kind
      attrs := attrs.map (indexAttrs collection index kind)
      marks := match marks with
        | some nodes => some (indexAllPaths collection index nodes)
        | none => none
      content := match content with
        | some nodes => some (indexAllPaths collection index nodes)
        | none => none
      text := text
      extra := extra }

/-- Indexes the paths in some nodes. -/
def indexAllPaths (collection : String) (index : Nat) : List Node → List Node
  | [] => []
  | node :: rest => indexPaths collection index node :: indexAllPaths collection index rest

end

/-- Copies of some nodes for each of the first elements of a collection. -/
def indexedCopies (collection : String) (count : Nat) (nodes : List Node) : List Node :=
  (List.range count).flatMap fun index => indexAllPaths collection index nodes

mutual

/-- Indexing keeps the height of a node. -/
theorem height_indexPaths (collection : String) (index : Nat) (node : Node) :
    (indexPaths collection index node).height = node.height := by
  obtain ⟨kind, attrs, marks, content, text, extra⟩ := node
  cases content with
  | none => simp [indexPaths, Node.height]
  | some children =>
    simp only [indexPaths, Node.height, heights_indexAllPaths collection index children]

/-- Indexing keeps the height of nodes. -/
theorem heights_indexAllPaths (collection : String) (index : Nat) (nodes : List Node) :
    heights (indexAllPaths collection index nodes) = heights nodes := by
  cases nodes with
  | nil => rfl
  | cons node rest =>
    simp only [indexAllPaths, heights, height_indexPaths collection index node,
      heights_indexAllPaths collection index rest]

end

theorem heights_append (left right : List Node) :
    heights (left ++ right) = max (heights left) (heights right) := by
  induction left with
  | nil => simp [heights]
  | cons node rest ih => simp only [List.cons_append, heights, ih, Nat.max_assoc]

/-- Copies do not nest deeper than what is copied. -/
theorem heights_indexedCopies (collection : String) (count : Nat) (nodes : List Node) :
    heights (indexedCopies collection count nodes) ≤ heights nodes := by
  unfold indexedCopies
  induction List.range count with
  | nil => exact Nat.zero_le _
  | cons index rest ih =>
    rw [List.flatMap_cons, heights_append, heights_indexAllPaths]
    exact Nat.max_le.mpr ⟨Nat.le_refl _, ih⟩

end MessageTemplate.Document
