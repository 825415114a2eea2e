import MessageTemplate.Text.Basic

/-! # Tokens of template text

A template is text with outputs between double braces and tags between braces with percent
signs. Positions count the bytes of the source. -/

namespace MessageTemplate.Template

/-- A byte range of the source. -/
structure Span where
  start : Nat
  stop : Nat
  deriving DecidableEq, Repr, Inhabited

/-- The source text of an output or a tag, delimiters included, with its position. -/
structure Token where
  text : String
  span : Span
  deriving DecidableEq, Repr, Inhabited

/-- A tag: its name, what stands after the name, and its token. -/
structure Tag where
  name : String
  markup : String
  token : Token
  deriving DecidableEq, Repr, Inhabited

/-- A piece of a template. -/
inductive Piece where
  | text (content : String)
  | output (markup : String) (token : Token)
  | tag (tag : Tag)
  deriving DecidableEq, Repr

/-- The two kinds of delimiters. -/
inductive Delimiter where
  | output
  | tag
  deriving DecidableEq, Repr

namespace Delimiter

/-- What opens an output or a tag. -/
def opening : Delimiter → List Char
  | output => ['\x7b', '\x7b']
  | tag => ['\x7b', '%']

/-- What closes an output or a tag. -/
def closing : Delimiter → List Char
  | output => ['\x7d', '\x7d']
  | tag => ['%', '\x7d']

end Delimiter

/-- Why a template is refused. -/
inductive FaultCause where
  | missingClosing (delimiter : Delimiter)
  | missingName
  | unclosed (name : String)
  | unexpected (name : String)
  | missingCondition (name : String)
  | invalidLoop (name : String)
  | missingSubject
  | missingValue
  | missingTarget
  | invalidAssign
  | missingExpression
  | rejected (message : String)
  deriving DecidableEq, Repr

/-- A fault with the token to blame, if there is one. -/
structure Fault where
  cause : FaultCause
  token : Option Token
  deriving DecidableEq, Repr

/-- The wording of a cause. -/
def FaultCause.message : FaultCause → String
  | missingClosing delimiter => "Missing closing '" ++ String.ofList delimiter.closing ++ "'"
  | missingName => "Tag name is missing"
  | unclosed name => "'" ++ name ++ "' tag was never closed"
  | unexpected name => "Unexpected tag '" ++ name ++ "'"
  | missingCondition name => "'" ++ name ++ "' requires a condition"
  | invalidLoop name => "Invalid '" ++ name ++ "' syntax, expected 'item in collection'"
  | missingSubject => "'case' requires a subject"
  | missingValue => "'when' requires a value"
  | missingTarget => "'capture' requires a variable name"
  | invalidAssign => "Invalid 'assign' syntax, expected 'name = value'"
  | missingExpression => "'echo' requires an expression"
  | rejected message => message

/-- The wording of a fault. -/
def Fault.message (fault : Fault) : String := fault.cause.message

end MessageTemplate.Template
