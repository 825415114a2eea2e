import MessageTemplate.Analysis.Verdict
import MessageTemplate.Filter.Registry
import MessageTemplate.Template.Token

/-! # The variables of a template

A report lists the valid and the invalid variables of a template in the order in which they are
found. A name is listed once, at its first occurrence. -/

namespace MessageTemplate.Analysis

open Template

/-- What is wrong with a variable: with its name, or with the template where it stands. -/
inductive Problem where
  | naming (issue : NameIssue)
  | fault (cause : FaultCause)
  deriving DecidableEq, Repr

/-- A variable of a template with the token it was found in, the tag or filter it was found
through, and what is wrong with it or with the filters applied to it. -/
structure Variable where
  name : String
  token : Token
  context : Option String
  problem : Option Problem
  filterIssue : Option Filter.Issue
  deriving DecidableEq, Repr

namespace Variable

/-- The wording of what is wrong with the variable itself. -/
def message? (found : Variable) : Option String :=
  found.problem.map fun
    | .naming issue => issue.message found.name
    | .fault cause => cause.message

/-- The wording of what is wrong with its filters. -/
def filterMessage? (found : Variable) : Option String :=
  found.filterIssue.map Filter.Issue.message

/-- What to show for the variable; an issue with a filter comes first. -/
def issue? (found : Variable) : Option String :=
  found.filterMessage? <|> found.message?

end Variable

/-- The valid and the invalid variables of a template. -/
structure Report where
  valid : List Variable
  invalid : List Variable
  deriving DecidableEq, Repr

namespace Report

/-- Nothing has been found. -/
def empty : Report := ⟨[], []⟩

/-- Whether nothing has been found. -/
def isEmpty (report : Report) : Bool :=
  report.valid.isEmpty && report.invalid.isEmpty

/-- The names of the valid variables. -/
def validNames (report : Report) : List String :=
  report.valid.map Variable.name

/-- The names of the invalid variables. -/
def invalidNames (report : Report) : List String :=
  report.invalid.map Variable.name

/-- Whether a name is listed. -/
def mentions (report : Report) (name : String) : Bool :=
  report.validNames.contains name || report.invalidNames.contains name

/-- Lists a variable, unless its name is listed already. -/
def add (report : Report) (found : Variable) (valid : Bool) : Report :=
  if report.mentions found.name then report
  else if valid then { report with valid := report.valid ++ [found] }
  else { report with invalid := report.invalid ++ [found] }

/-- The report on a template that cannot be read: its faulty token, if there is one, stands as
the only, invalid variable. -/
def ofFault (fault : Fault) : Report :=
  match fault.token with
  | none => empty
  | some token => ⟨[], [⟨Text.trimmed token.text, token, none, some (.fault fault.cause), none⟩]⟩

end Report

end MessageTemplate.Analysis
