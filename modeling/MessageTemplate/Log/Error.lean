/-! # Why the log cannot be set up -/

namespace MessageTemplate

/-- Why the log cannot be set up: the levels cannot be read, or there is a log already. -/
inductive LogError where
  | invalidFilter (text : String)
  | alreadyInstalled
  deriving DecidableEq, Repr

/-- The wording of an error. -/
def LogError.message : LogError → String
  | invalidFilter text => "Invalid log filter '" ++ text ++ "'"
  | alreadyInstalled => "A global tracing subscriber is already installed"

end MessageTemplate
