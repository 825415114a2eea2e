import MessageTemplate.Document.Codec
import MessageTemplate.Document.Outputs
import MessageTemplate.Template.Token

/-! # Paths in documents

Which paths the nodes of a document show: those in attributes that are wrapped into outputs. A document
whose texts hold no delimiters has no other outputs, and no tags. -/

namespace MessageTemplate.Document

/-- A text without the delimiters of outputs and tags. -/
def IsInert (text : String) : Prop :=
  ∀ delimiter : Template.Delimiter, ¬Text.occurs delimiter.opening text.toList ∧
    ¬Text.occurs delimiter.closing text.toList

instance (text : String) : Decidable (IsInert text) :=
  decidable_of_iff
    (∀ delimiter ∈ [Template.Delimiter.output, .tag],
      ¬Text.occurs delimiter.opening text.toList ∧ ¬Text.occurs delimiter.closing text.toList)
    ⟨fun holds delimiter => holds delimiter (by cases delimiter <;> decide),
      fun inert delimiter _ => inert delimiter⟩

/-- A node in the tree of another one: that node itself, or one in the tree of its content or its
marks. -/
inductive Node.Holds : Node → Node → Prop where
  | self (node : Node) : Holds node node
  | content {node child inner : Node} {children : List Node} :
      node.content = some children → child ∈ children → Holds child inner → Holds node inner
  | mark {node mark inner : Node} {marks : List Node} :
      node.marks = some marks → mark ∈ marks → Holds mark inner → Holds node inner

/-- A node shows the path in an attribute: the flag next to it is set, the attribute is wrapped, and for
the path of a variable there is neither an alias nor a fallback. -/
structure OutputPolicy.Shows (policy : OutputPolicy) (node : Node) (pair : AttributePair)
    (path : String) : Prop where
  listed : pair ∈ node.classify.pairs ++ commonPairs
  flagged : isSet (node.attr? pair.flag) = true
  given : node.attr? pair.key = some (.string path)
  wrapped : policy.wraps node.kind pair.key path = true
  own : pair.key = "id" → ∀ key ∈ ["aliasFor", "fallback"],
    node.attrs.bind (nonemptyText? · key) = none

end MessageTemplate.Document
