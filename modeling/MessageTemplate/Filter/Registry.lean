import MessageTemplate.Keyed
import MessageTemplate.Template.Expression

/-! # Filter rules

A rule looks at the arguments of a filter and at what is known of the value it is applied to. The
registry holds one rule a name; a filter without a rule passes. -/

namespace MessageTemplate.Filter

open Template

/-- What is wrong with a use of a filter. -/
inductive Issue where
  | digestCount
  | digestKeyPath
  | digestWithoutKeyPath
  | sentenceKeyPath
  | sentenceWithoutKeyPath
  | sentenceLimit
  | pluralizeNoun
  | defaultFallback
  | truncateLength
  | dateFormat
  | other (message : String)
  deriving DecidableEq, Repr

/-- The wording of an issue. -/
def Issue.message : Issue → String
  | digestCount =>
    "The 'digest' filter expects the number of names to display as its first argument"
  | digestKeyPath => "The 'digest' filter expects a quoted key path as its second argument"
  | digestWithoutKeyPath =>
    "The 'digest' filter requires a key path (e.g. 'payload.name') when applied to events"
  | sentenceKeyPath => "The 'toSentence' filter expects a quoted key path as its first argument"
  | sentenceWithoutKeyPath =>
    "The 'toSentence' filter requires a key path (e.g. 'payload.name') when applied to events"
  | sentenceLimit => "The 'toSentence' filter expects a number as its second argument"
  | pluralizeNoun => "The 'pluralize' filter expects the noun to pluralize as its first argument"
  | defaultFallback => "The 'default' filter requires a fallback value"
  | truncateLength => "Truncation filters expect a number as their first argument"
  | dateFormat => "The 'date' filter expects a format string as its first argument"
  | other message => message

/-- What is known of the value a filter is applied to: whether it is a collection of objects, so
that a path is needed to pick a text from each of them. -/
structure Context where
  needsKeyPath : Bool
  deriving DecidableEq, Repr

/-- A rule maps what is known of the value and the arguments without names to issues. -/
abbrev Rule := Context → List Argument → List Issue

/-- Rules by filter name. -/
abbrev Registry := Keyed Rule

namespace Registry

/-- No rules: every filter passes. -/
def empty : Registry := []

/-- Gives a filter a rule, in place of the one it has. -/
def register (registry : Registry) (name : String) (rule : Rule) : Registry :=
  Keyed.insert name rule registry

/-- Whether a filter has a rule. -/
def contains (registry : Registry) (name : String) : Bool :=
  Keyed.has name registry

/-- The issues of one filter. -/
def validate (registry : Registry) (name : String) (context : Context)
    (arguments : List Argument) : List Issue :=
  match Keyed.get? name registry with
  | some rule => rule context (arguments.filter Argument.isPositional)
  | none => []

/-- The first issue of a chain of filters. -/
def firstIssue? (registry : Registry) (calls : List FilterCall) (context : Context) :
    Option Issue :=
  calls.findSome? fun call => (registry.validate call.name context call.arguments).head?

end Registry

end MessageTemplate.Filter
