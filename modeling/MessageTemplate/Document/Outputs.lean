import MessageTemplate.Document.Node
import MessageTemplate.Text.Basic

/-! # Attributes that are outputs

Some attributes hold a path when a flag next to them is set. Before a document is rendered such a
path is wrapped into an output, so that its value takes its place, and the flag is cleared.
Variables, show conditions and collections are flags of themselves and stay set. -/

namespace MessageTemplate.Document

/-- An attribute and the flag that tells whether it holds a path. -/
structure AttributePair where
  key : String
  flag : String
  deriving DecidableEq, Repr

/-- The pairs of a kind of node. -/
def Kind.pairs : Kind → List AttributePair
  | .variableMark => [⟨"id", "id"⟩]
  | .button => [⟨"text", "isTextVariable"⟩, ⟨"url", "isUrlVariable"⟩]
  | .image => [⟨"src", "isSrcVariable"⟩, ⟨"externalLink", "isExternalLinkVariable"⟩]
  | .link => [⟨"href", "isUrlVariable"⟩]
  | .repeatBlock => []
  | .generic => []

/-- The pairs of every node. -/
def commonPairs : List AttributePair :=
  [⟨Node.showKey, Node.showKey⟩, ⟨Node.eachKey, Node.eachKey⟩]

/-- The opening of an output. -/
def outputOpening : List Char := ['\x7b', '\x7b']

/-- The end of an output. -/
def outputClosing : List Char := ['\x7d', '\x7d']

/-- An output with some inside, set off by spaces. -/
def outputOf (inside : String) : String :=
  String.ofList (outputOpening ++ ' ' :: inside.toList ++ ' ' :: outputClosing)

/-- A text with typographic apostrophes, as a quoted text has no way to hold plain ones. -/
def withoutQuotes (text : String) : String :=
  String.ofList (text.toList.map fun c => if c = '\'' then '’' else c)

/-- The output of a path, with a fallback unless that is empty. -/
def wrapOutput (path : String) (fallback : Option String) : String :=
  match fallback.filter (· ≠ "") with
  | some fallback => outputOf (path ++ " | default: '" ++ withoutQuotes fallback ++ "'")
  | none => outputOf path

/-- Whether a flag is set: to true, to a text that is not empty, or to a number, an array or an
object. -/
def isSet : Option Json → Bool
  | none => false
  | some .null => false
  | some (.bool value) => value
  | some (.string text) => text ≠ ""
  | some _ => true

/-- A text that is not empty. -/
def nonemptyText? (attrs : Keyed Json) (key : String) : Option String :=
  ((Keyed.get? key attrs).bind Json.string?).filter (· ≠ "")

/-- Which attributes are wrapped and which flags are cleared. -/
structure OutputPolicy where
  wraps : (kind key value : String) → Bool
  clears : (flag : String) → Bool

/-- The output that an attribute becomes. For the path of a variable its alias stands in, and its
fallback is used. -/
def attributeOutput (given : Keyed Json) (key value : String) : String :=
  if key = "id" then
    wrapOutput ((nonemptyText? given "aliasFor").getD value)
      ((Keyed.get? "fallback" given).bind Json.string?)
  else wrapOutput value none

/-- Wraps the attribute of a pair and clears its flag. Alias and fallback are those of the
attributes as they were given. An attribute that holds an output already is not wrapped again. -/
def OutputPolicy.applyPair (policy : OutputPolicy) (kind : String) (given attrs : Keyed Json)
    (pair : AttributePair) : Keyed Json :=
  if !isSet (Keyed.get? pair.flag attrs) then attrs
  else
    match nonemptyText? attrs pair.key with
    | none => attrs
    | some value =>
      let wrapped :=
        if policy.wraps kind pair.key value
            && !Text.occurs outputOpening value.toList then
          Keyed.insert pair.key (.string (attributeOutput given pair.key value)) attrs
        else attrs
      if policy.clears pair.flag then Keyed.insert pair.flag (.bool false) wrapped else wrapped

/-- Wraps the attributes of a node of some type. -/
def OutputPolicy.applyAttrs (policy : OutputPolicy) (kind : String) (attrs : Keyed Json) :
    Keyed Json :=
  ((Kind.ofName kind).pairs ++ commonPairs).foldl (policy.applyPair kind attrs) attrs

mutual

/-- Wraps the attributes of a node and of all nodes below it, in content and marks. -/
def OutputPolicy.apply (policy : OutputPolicy) : Node → Node
  | ⟨kind, attrs, marks, content, text, extra⟩ =>
    { kind := kind
      attrs := attrs.map (policy.applyAttrs kind)
      marks := match marks with
        | some nodes => some (applyAll policy nodes)
        | none => none
      content := match content with
        | some nodes => some (applyAll policy nodes)
        | none => none
      text := text
      extra := extra }

/-- Wraps the attributes of some nodes. -/
def OutputPolicy.applyAll (policy : OutputPolicy) : List Node → List Node
  | [] => []
  | node :: rest => policy.apply node :: applyAll policy rest

end

/-- The flags that stay set, so that later passes still see variables, show conditions and
collections. -/
def firstClassFlags : List String := ["id", Node.showKey, Node.eachKey]

/-- The usual policy: the text of a button that is a phrase key stays as it is, and the first
class flags are not cleared. -/
def OutputPolicy.standard (phraseNamespace : String) : OutputPolicy where
  wraps kind key value :=
    !(kind = "button" && key = "text"
      && (phraseNamespace.toList ++ ['.']).isPrefixOf value.toList)
  clears flag := !firstClassFlags.contains flag

/-- A document with its dynamic attributes wrapped into outputs by the usual policy. -/
def wrapOutputs (phraseNamespace : String) (document : Node) : Node :=
  (OutputPolicy.standard phraseNamespace).apply document

end MessageTemplate.Document
