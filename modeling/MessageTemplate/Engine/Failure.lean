/-! # Why rendering fails -/

namespace MessageTemplate.Engine

/-- Why rendering fails: a variable or a part of it is not there, a key is no scalar, a filter is
given the wrong input or argument or cannot be applied at all, a loop has nothing to run over or
a bound that is not whole, a value cannot contain anything, or a template to be inserted is not
there. -/
inductive Failure where
  | unknownVariable (path : String)
  | badKey (written : String)
  | badInput (expected : String)
  | badArgument (name expected : String)
  | unavailable (filter : String)
  | notIterable
  | notWhole (written : String)
  | cannotContain
  | unknownPartial (name : String)
  deriving DecidableEq, Repr

/-- The wording of a failure. -/
def Failure.message : Failure → String
  | unknownVariable path => "Unknown variable " ++ path
  | badKey written => "Expected a scalar as key, found " ++ written
  | badInput expected => "Invalid input, " ++ expected ++ " expected"
  | badArgument name expected => "Invalid argument " ++ name ++ ", " ++ expected ++ " expected"
  | unavailable filter => "The filter " ++ filter ++ " cannot be applied"
  | notIterable => "Unexpected value, array expected"
  | notWhole written => "Unexpected value " ++ written ++ ", whole number expected"
  | cannotContain => "Unexpected value, string, array or object expected"
  | unknownPartial name => "Unknown partial template " ++ name

end MessageTemplate.Engine
