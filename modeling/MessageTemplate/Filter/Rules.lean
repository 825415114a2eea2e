import MessageTemplate.Filter.Registry

/-! # The rules of the known filters

A reference passes wherever a number or a text is asked for, because its value is not known. Only
a key path must be written out. -/

namespace MessageTemplate.Filter

open Template

/-- Numbers and references. -/
def isNumeric : Argument → Bool
  | .number _ => true
  | .reference _ => true
  | _ => false

/-- Texts and references. -/
def isTextual : Argument → Bool
  | .text _ => true
  | .reference _ => true
  | _ => false

/-- The issues of a key path argument: it must be a text, and must be there if one is needed. -/
def keyPathIssues (argument : Option Argument) (context : Context) (wrong missing : Issue) :
    List Issue :=
  match argument with
  | some argument => if argument.text?.isSome then [] else [wrong]
  | none => if context.needsKeyPath then [missing] else []

/-- The issue of an optional argument that must satisfy a test if it is there. -/
def optionalIssues (argument : Option Argument) (fits : Argument → Bool) (wrong : Issue) :
    List Issue :=
  if argument.all fits then [] else [wrong]

/-- The issue of an argument that must be there and satisfy a test. -/
def requiredIssues (argument : Option Argument) (fits : Argument → Bool) (wrong : Issue) :
    List Issue :=
  if argument.any fits then [] else [wrong]

/-- `digest: count, 'key path'`. -/
def digestRule : Rule := fun context arguments =>
  optionalIssues arguments[0]? isNumeric .digestCount ++
    keyPathIssues arguments[1]? context .digestKeyPath .digestWithoutKeyPath

/-- `toSentence: 'key path', limit`. -/
def sentenceRule : Rule := fun context arguments =>
  keyPathIssues arguments[0]? context .sentenceKeyPath .sentenceWithoutKeyPath ++
    optionalIssues arguments[1]? isNumeric .sentenceLimit

/-- `pluralize: 'noun'`. -/
def pluralizeRule : Rule := fun _ arguments =>
  requiredIssues arguments[0]? isTextual .pluralizeNoun

/-- `default: fallback`. -/
def defaultRule : Rule := fun _ arguments =>
  requiredIssues arguments[0]? (fun _ => true) .defaultFallback

/-- `truncate: length`. -/
def truncateRule : Rule := fun _ arguments =>
  optionalIssues arguments[0]? isNumeric .truncateLength

/-- `date: 'format'`. -/
def dateRule : Rule := fun _ arguments =>
  requiredIssues arguments[0]? isTextual .dateFormat

/-- The rules of all known filters. -/
def Registry.defaults : Registry :=
  Keyed.ofList [("digest", digestRule), ("toSentence", sentenceRule),
    ("pluralize", pluralizeRule), ("default", defaultRule), ("truncate", truncateRule),
    ("truncatewords", truncateRule), ("date", dateRule)]

end MessageTemplate.Filter
