import MessageTemplate.Analysis.Occurrence
import MessageTemplate.Template.Place

/-! # What a piece reads by itself

The occurrences in the markup of one output or tag, without those in the nodes that belong to it. -/

namespace MessageTemplate.Analysis

open Template

/-- The names that the markup of a tag reads. The kind of the conditional that a tag continues is given
with it. -/
def occurrencesInTag (filters : Filter.Registry) (kind : ConditionalKind) (tag : Tag) :
    List Occurrence :=
  match tag.name with
  | "echo" => occurrencesInOutput filters tag.markup tag.token
  | "assign" =>
    match assignment? tag.markup with
    | some (target, expression) =>
      (occurrencesInExpression "assign" tag.token expression).map (.under [target])
    | none => []
  | "if" => occurrencesInExpression "if" tag.token tag.markup
  | "unless" => occurrencesInExpression "unless" tag.token tag.markup
  | "elsif" => occurrencesInExpression kind.tagName tag.token tag.markup
  | "case" => occurrencesInExpression "case" tag.token tag.markup
  | "when" =>
    ((whenValues tag.markup).filter fun value => !isLiteral value).flatMap
      (occurrencesInExpression "when" tag.token)
  | "for" =>
    match loopHeader? tag.markup with
    | some header => occurrencesInLoopHead .list header.collection header.params tag.token
    | none => []
  | "tablerow" =>
    match loopHeader? tag.markup with
    | some header => occurrencesInLoopHead .table header.collection header.params tag.token
    | none => []
  | "cycle" => occurrencesInExpression "cycle" tag.token tag.markup
  | _ => []

theorem occurrencesInTag_loop {filters : Filter.Registry} {kind : ConditionalKind} {loop : LoopKind}
    {header : LoopHeader} {tag : Tag} (name : tag.name = loop.tagName)
    (read : loopHeader? tag.markup = some header) :
    occurrencesInTag filters kind tag =
      occurrencesInLoopHead loop header.collection header.params tag.token := by
  cases loop <;> simp only [occurrencesInTag, name, LoopKind.tagName, read]

/-- The names that the markup of a piece reads. -/
def occurrencesInPiece (filters : Filter.Registry) (kind : ConditionalKind) :
    Piece → List Occurrence
  | .text _ => []
  | .output markup token => occurrencesInOutput filters markup token
  | .tag tag => occurrencesInTag filters kind tag

/-- Occurrences among others, with further names bound around them. -/
def PartOf (part whole : List Occurrence) : Prop :=
  ∃ before binders after, whole = before ++ part.map (.under binders) ++ after

/-- Occurrences of which one is that of a reference and the others are independent of it: their names
are given, or are read from the elements of the collection that the reference stands for. -/
def ReadsOnce (others : List String) (reference : Reference) (token : Token)
    (context : Option String) (issue : Option Filter.Issue) (found : List Occurrence) : Prop :=
  ∃ earlier binders later,
    found = earlier ++ ⟨reference.path, token, context, issue, false, none, binders⟩ :: later ∧
    ∀ other ∈ earlier ++ later, other.name ∈ others ∨ other.collection = some reference.path

/-- The filter issue that goes with a name at a place: at the base of an output the first one of the
filters behind it, which depends on the name only in whether it is a collection of events; elsewhere
none. -/
def issueAround (filters : Filter.Registry) (piece : Option String) (lead tail : List Char)
    (name : String) : Option Filter.Issue :=
  if IsBase piece lead then
    filters.firstIssue? (splitFilters (String.ofList tail)).2 ⟨StepPath.isEvents name⟩
  else none

/-- Whether an occurrence is reported, unless its name has been reported before. -/
def Occurrence.counts (schema : Option Schema) (options : Options) (found : Occurrence) : Bool :=
  found.isFounded schema options && !found.isBound

end MessageTemplate.Analysis
