import MessageTemplate.Json.Basic
import MessageTemplate.Text.Whole

/-! # Rich documents

A rich document is a tree of nodes. Its paragraphs hold texts, variables, buttons and images;
links are marks of texts; a repeat shows its content once for each element of a collection. -/

namespace MessageTemplate.Document

/-- A node: its type, attributes, marks, content and text, and fields that have no meaning
here. -/
structure Node where
  kind : String
  attrs : Option (List (String × Json))
  marks : Option (List Node)
  content : Option (List Node)
  text : Option String
  extra : List (String × Json)
  deriving Inhabited

/-- The kinds of nodes that hold paths in attributes of their own. -/
inductive Kind where
  | variableMark
  | repeatBlock
  | button
  | image
  | link
  | generic
  deriving DecidableEq, Repr

namespace Kind

/-- What the nodes of a type are. -/
def ofName : String → Kind
  | "variable" => variableMark
  | "repeat" => repeatBlock
  | "button" => button
  | "image" => image
  | "inlineImage" => image
  | "link" => link
  | _ => generic

/-- The attributes that hold paths, by kind. -/
def dynamicAttributes : Kind → List String
  | variableMark => ["id", "aliasFor"]
  | button => ["text", "url"]
  | image => ["src", "externalLink"]
  | link => ["href"]
  | repeatBlock => []
  | generic => []

end Kind

namespace Node

/-- A node of a type, with nothing in it. -/
def ofKind (kind : String) : Node := ⟨kind, none, none, none, none, []⟩

/-- A text node. -/
def ofText (text : String) : Node := { ofKind "text" with text := some text }

/-- What a node is. -/
def classify (node : Node) : Kind := Kind.ofName node.kind

/-- An attribute. -/
def attr? (node : Node) (key : String) : Option Json :=
  node.attrs.bind (Keyed.get? key)

/-- An attribute that is a text and not blank. -/
def strAttr? (node : Node) (key : String) : Option String :=
  ((node.attr? key).bind Json.string?).filter fun text => !text.toList.all Text.isBlank

/-- Sets an attribute. -/
def withAttr (node : Node) (key : String) (value : Json) : Node :=
  { node with attrs := some (Keyed.insert key value (node.attrs.getD [])) }

/-- Removes an attribute. -/
def removeAttr (node : Node) (key : String) : Node :=
  { node with attrs := node.attrs.map (Keyed.erase key) }

/-- Sets the content. -/
def withContent (node : Node) (content : List Node) : Node :=
  { node with content := some content }

/-- The attribute that holds the condition for a node to be shown. -/
def showKey : String := "showIfKey"

/-- The attribute that holds the collection a node is repeated for. -/
def eachKey : String := "each"

/-- The condition for the node to be shown. -/
def showCondition? (node : Node) : Option String := node.strAttr? showKey

/-- The collection that the node is repeated for. -/
def each? (node : Node) : Option String := node.strAttr? eachKey

/-- The declared number of repetitions, as a number or as a text. -/
def iterations? (node : Node) : Option Nat :=
  match node.attr? "iterations" with
  | some (.number value) => value.count?
  | some (.string text) => Text.count? (Text.trim text.toList)
  | _ => none

/-- The attributes in which a position may be put behind a collection. -/
def indexedAttributes (node : Node) : List String :=
  node.classify.dynamicAttributes ++ [showKey, eachKey]

end Node

mutual

/-- How deep the content of a node nests, the node included. -/
def Node.height : Node → Nat
  | ⟨_, _, _, content, _, _⟩ =>
    match content with
    | none => 1
    | some children => heights children + 1

/-- The greatest height of some nodes. -/
def heights : List Node → Nat
  | [] => 0
  | node :: rest => max node.height (heights rest)

end

end MessageTemplate.Document
