/-! # What is counted

Analyses, walks through documents and previews report events, and the events are counted. -/

namespace MessageTemplate

/-- An event that is counted: variables have been found in a template; a template could not be
read; a node has been repeated for its collection; a node has been hidden; a show condition could
not be evaluated; a preview has been made. -/
inductive Event where
  | found (valid invalid : Nat)
  | syntaxError
  | expansion
  | hidden
  | conditionFailure
  | preview
  deriving DecidableEq, Repr

/-- The counts of a run: valid and invalid variables, and the other events by kind. -/
structure Counters where
  valid : Nat
  invalid : Nat
  syntaxErrors : Nat
  repeats : Nat
  hidden : Nat
  conditionFailures : Nat
  previews : Nat
  deriving DecidableEq, Repr

namespace Counters

/-- Nothing has been counted. -/
def zero : Counters := ⟨0, 0, 0, 0, 0, 0, 0⟩

/-- Counts an event. -/
def count (counters : Counters) : Event → Counters
  | .found valid invalid =>
    { counters with valid := counters.valid + valid, invalid := counters.invalid + invalid }
  | .syntaxError => { counters with syntaxErrors := counters.syntaxErrors + 1 }
  | .expansion => { counters with repeats := counters.repeats + 1 }
  | .hidden => { counters with hidden := counters.hidden + 1 }
  | .conditionFailure => { counters with conditionFailures := counters.conditionFailures + 1 }
  | .preview => { counters with previews := counters.previews + 1 }

end Counters

end MessageTemplate
