import MessageTemplate.Document.Node
import MessageTemplate.Json.Reader
import MessageTemplate.Json.Writer

/-! # Documents as JSON

A node is an object with the fields `type`, `attrs`, `marks`, `content` and `text`, all but the
first optional. It is written with these fields in this order and its other fields behind them. A
field that is null counts as left out, and is not written; one of the five that stands twice is
an error. -/

namespace MessageTemplate.Document

/-- A field of a node. -/
inductive Field where
  | kind (name : String)
  | attrs (value : Option (Keyed Json))
  | marks (value : Option (List Node))
  | content (value : Option (List Node))
  | text (value : Option String)
  | other (key : String) (value : Json)

/-- What has been read of a node: for each of the five fields whether it has been seen, and its
value. -/
structure Draft where
  kind : Option String
  attrs : Option (Option (Keyed Json))
  marks : Option (Option (List Node))
  content : Option (Option (List Node))
  text : Option (Option String)
  extra : Keyed Json

namespace Draft

/-- Nothing has been read. -/
def empty : Draft := ⟨none, none, none, none, none, []⟩

/-- Adds a field, unless it is one of the five and has been seen. -/
def add? (draft : Draft) : Field → Option Draft
  | .kind name => if draft.kind.isSome then none else some { draft with kind := some name }
  | .attrs value => if draft.attrs.isSome then none else some { draft with attrs := some value }
  | .marks value => if draft.marks.isSome then none else some { draft with marks := some value }
  | .content value =>
    if draft.content.isSome then none else some { draft with content := some value }
  | .text value => if draft.text.isSome then none else some { draft with text := some value }
  | .other key value => some { draft with extra := Keyed.insert key value draft.extra }

/-- The node that has been read, if it has a type. -/
def finish? (draft : Draft) : Option Node :=
  draft.kind.map fun kind =>
    ⟨kind, draft.attrs.join, draft.marks.join, draft.content.join, draft.text.join, draft.extra⟩

end Draft

/-- A field other than `marks` and `content`. -/
def plainField? (key : String) (value : Json) : Option Field :=
  match key, value with
  | "type", .string name => some (.kind name)
  | "type", _ => none
  | "attrs", .null => some (.attrs none)
  | "attrs", .object members => some (.attrs (some (Keyed.ofList (Json.orderedMembers members))))
  | "attrs", _ => none
  | "text", .null => some (.text none)
  | "text", .string text => some (.text (some text))
  | "text", _ => none
  | key, value => some (.other key value.ordered)

mutual

/-- Reads a node. -/
def decode? : Json → Option Node
  | .object members => (decodeFields? .empty members).bind Draft.finish?
  | _ => none

/-- Reads the fields of a node. -/
def decodeFields? (draft : Draft) : List (String × Json) → Option Draft
  | [] => some draft
  | (key, value) :: rest =>
    let field :=
      if key = "marks" then (decodeNodes? value).map Field.marks
      else if key = "content" then (decodeNodes? value).map Field.content
      else plainField? key value
    match field.bind draft.add? with
    | some next => decodeFields? next rest
    | none => none

/-- Reads a list of nodes, or null. -/
def decodeNodes? : Json → Option (Option (List Node))
  | .null => some none
  | .array items => (decodeItems? items).map some
  | _ => none

/-- Reads the nodes of a list. -/
def decodeItems? : List Json → Option (List Node)
  | [] => some []
  | item :: rest =>
    match decode? item, decodeItems? rest with
    | some node, some others => some (node :: others)
    | _, _ => none

end

/-- A field that is written only if it is there. -/
def optionalField (key : String) (value : Option Json) : List (String × Json) :=
  match value with
  | some value => [(key, value)]
  | none => []

mutual

/-- A node as JSON. -/
def Node.toJson : Node → Json
  | ⟨kind, attrs, marks, content, text, extra⟩ =>
    let marks := match marks with
      | some nodes => some (Json.array (nodesToJson nodes))
      | none => none
    let content := match content with
      | some nodes => some (Json.array (nodesToJson nodes))
      | none => none
    .object ([("type", .string kind)] ++ optionalField "attrs" (attrs.map Json.object) ++
      optionalField "marks" marks ++ optionalField "content" content ++
      optionalField "text" (text.map Json.string) ++ extra)

/-- Nodes as JSON. -/
def nodesToJson : List Node → List Json
  | [] => []
  | node :: rest => node.toJson :: nodesToJson rest

end

/-- The text of a document. -/
def Node.serialize (node : Node) : String := node.toJson.text

/-- Reads the text of a document. -/
def Node.parse? (source : String) : Option Node :=
  (Json.readWritten? source).bind decode?

end MessageTemplate.Document
