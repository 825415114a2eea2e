import MessageTemplate.Document.Question
import MessageTemplate.Template.Expression

/-! # Nested repeats

A chain of repeats, each the only child of the one around it, with a variable in the innermost: the
collection of each repeat leads on by a property from the collection around it, and the path of the
variable leads on from the last collection. -/

namespace MessageTemplate.Document

/-! ## Paths -/

/-- Whether a name is a plain identifier: an ASCII letter or an underscore, and then letters, digits
and underscores. -/
def isIdentifier : List Char → Bool
  | [] => false
  | c :: rest => Text.isNameStart c && rest.all Template.joinsWord

/-- Names behind dots. -/
def dotted (names : List (List Char)) : List Char :=
  names.flatMap fun name => '.' :: name

/-- A path of identifiers with dots between them. -/
def IsDotted (path : List Char) : Prop :=
  ∃ first names, path = first ++ dotted names ∧ ∀ name ∈ first :: names, isIdentifier name = true

/-- A path with positions behind it and behind the names that it goes on with, up to the name that
comes after the last position. -/
def indexedPath (path : List Char) : List (List Char) → List Nat → List Char
  | name :: names, position :: positions =>
    indexedPath (path ++ indexText position ++ '.' :: name) names positions
  | _, _ => path

/-- What stands around a path in an attribute. -/
structure Frame where
  lead : List Char
  tail : List Char

namespace Frame

/-- A path as it is. -/
def bare : Frame := ⟨[], []⟩

/-- The output of a path, with a fallback unless that is empty. -/
def output (fallback : Option String) : Frame where
  lead := outputOpening ++ [' ']
  tail :=
    (match fallback.filter (· ≠ "") with
      | some fallback => " | default: '".toList ++ (withoutQuotes fallback).toList ++ ['\'']
      | none => []) ++ ' ' :: outputClosing

/-- The text of an attribute that holds a path. -/
def around (frame : Frame) (path : List Char) : String :=
  String.ofList (frame.lead ++ path ++ frame.tail)

end Frame

/-! ## Chains -/

/-- A variable that shows a path, without show condition and collection. Nothing is in it. -/
structure IsVariable (frame : Frame) (path : List Char) (node : Node) : Prop where
  kind : node.kind = "variable"
  id : node.attr? "id" = some (.string (frame.around path))
  shown : node.attr? Node.showKey = none
  single : node.attr? Node.eachKey = none
  leaf : node.children = []

/-- A chain of repeats around a variable, for the names that its path goes on with and the declared
iterations of the repeats. None of them has a show condition. -/
inductive Nested (each id : Frame) : List Char → List (List Char) → List (Option Nat) →
    (innermost outermost : Node) → Prop where
  | leaf {path : List Char} {node : Node} :
      IsVariable id path node → Nested each id path [] [] node node
  | repeated {path name : List Char} {names : List (List Char)} {limit : Option Nat}
      {limits : List (Option Nat)} {innermost inner node : Node} :
      node.attr? Node.eachKey = some (.string (each.around path)) →
      node.attr? Node.showKey = none → node.iterations? = limit → node.content = some [inner] →
      Nested each id (path ++ '.' :: name) names limits innermost inner →
      Nested each id path (name :: names) (limit :: limits) innermost node

/-- A node that goes by its id, and by no other alias. -/
def HasOwnName (node : Node) : Prop :=
  ∀ other, node.attr? "aliasFor" = some (.string other) →
    other = "" ∨ node.attr? "id" = some (.string other)

/-- The form in which a document is prepared: as it is written, or wrapped into outputs. -/
inductive Form where
  | written
  | wrapped (phraseNamespace : String)

namespace Form

/-- A document in a form. -/
def apply : Form → Node → Node
  | written, document => document
  | wrapped phraseNamespace, document => wrapOutputs phraseNamespace document

/-- How the path of a variable stands in its attribute. -/
def frame (form : Form) (shown : Node) : Frame :=
  match form with
  | written => .bare
  | wrapped _ => .output ((shown.attr? "fallback").bind Json.string?)

/-- How the path of a collection stands in its attribute. -/
def eachFrame : Form → Frame
  | written => .bare
  | wrapped _ => .output none

end Form

/-! ## Tuples of positions -/

/-- Below which number the next position is, given those before it: the size of the collection there,
or the iterations that are declared for its repeat if these are fewer. -/
def positionBound (size : List Nat → Nat) (limits : List (Option Nat)) (outer : List Nat) : Nat :=
  match limits[outer.length]? with
  | some (some limit) => min (size outer) limit
  | _ => size outer

/-- Each of some positions is below the bound that those before it give. -/
def Below (bound : List Nat → Nat) (positions : List Nat) : Prop :=
  ∀ outer position inner, positions = outer ++ position :: inner → position < bound outer

/-- In every state the evaluator resolves a collection to an array of some size. -/
def Resolves {σ : Type} (evaluator : Evaluator σ) (data : Json) (collection : String) (size : Nat) :
    Prop :=
  ∀ state, ∃ items, (evaluator.resolveCollection collection data state).1 = .ok items ∧
    items.length = size

/-! ## Places -/

/-- A text without attributes and content. -/
structure IsText (label : String) (node : Node) : Prop where
  kind : node.kind = "text"
  text : node.text = some label
  plain : node.attrs = none
  leaf : node.children = []

/-- A document with some nodes in the place of one. None of the nodes around that is repeated. -/
inductive Replaces (one : Node) (others : List Node) : (document replaced : Node) → Prop where
  | here {node : Node} {before after : List Node} :
      node.content = some (before ++ one :: after) →
      Replaces one others node (node.withContent (before ++ others ++ after))
  | inside {node child replaced : Node} {before after : List Node} :
      node.content = some (before ++ child :: after) → child.each? = none →
      Replaces one others child replaced →
      Replaces one others node (node.withContent (before ++ replaced :: after))

end MessageTemplate.Document
