import MessageTemplate.Analysis.Analyzer

/-! # Key paths of filters on events

A filter that picks a text from each event takes a key path. Its rule counts the arguments without
names up to the key path, while the walk over a template counts all arguments. This module holds
what the rule means, and when the two counts are the same. -/

namespace MessageTemplate.Analysis

open Template

/-- The text that the rule of a filter takes for its key path. -/
def checkedKeyPath? (call : FilterCall) : Option String := do
  let position ← keyPathPosition? call.name
  let argument ← (call.arguments.filter Argument.isPositional)[position]?
  argument.text?

/-- Whether the arguments up to the key path all stand without names. -/
def leadsWithKeyPath (call : FilterCall) : Bool :=
  (keyPathPosition? call.name).all fun position =>
    (call.arguments.take (position + 1)).all Argument.isPositional

/-- The name that a filter reads from each event, by the key path of its rule. -/
def elementName? (events : String) (call : FilterCall) : Option String :=
  ((checkedKeyPath? call).filter StepPath.isNameChain).map (events ++ "." ++ ·)

namespace Analyzer

variable (analyzer : Analyzer)

/-- The base and the filters of an output on an events collection that is found valid in a scope. -/
structure ValidEvents (scope : Scope) (base events : String) (calls : List FilterCall) : Prop where
  normalized : Path.normalize base = events
  isPath : isLiteral base = false
  solid : hasUnquotedBlank base = false
  isEvents : StepPath.isEvents events = true
  faultless : analyzer.filters.firstIssue? calls ⟨true⟩ = none
  accepted : judge analyzer.schema analyzer.options scope events = .valid

/-- Lists the base of an output and the references among the arguments of its filters. -/
def recordReferences (scope : Scope) (token : Token) (name : String) (calls : List FilterCall)
    (report : Report) : Report :=
  calls.foldl (analyzer.recordArguments scope token)
    (analyzer.record scope token none none report name)

/-- Lists what a filter reads from each event, if no argument with a name stands before its key
path. -/
def recordElement (scope : Scope) (token : Token) (events : String) (report : Report)
    (call : FilterCall) : Report :=
  match (elementName? events call).filter fun _ => leadsWithKeyPath call with
  | some name => analyzer.record scope token (some call.name) none report name
  | none => report

end Analyzer

end MessageTemplate.Analysis
