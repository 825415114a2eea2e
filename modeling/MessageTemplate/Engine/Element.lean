import MessageTemplate.Engine.Value
import MessageTemplate.Template.Token

/-! # Elements of a template

The engine reads a template as a row of elements: texts, outputs and tags. Inside an output stands
a chain of filters, inside a tag a row of tokens. -/

namespace MessageTemplate.Engine

/-- A literal, or a variable with the keys that lead on from it. -/
inductive Operand where
  | literal (value : Value)
  | lookup (name : String) (keys : List Operand)
  deriving Inhabited

mutual

/-- An operand as it is written. -/
def Operand.written : Operand → String
  | .literal (.string text) => "\"" ++ text ++ "\""
  | .literal .nil => "nil"
  | .literal value => value.text
  | .lookup name keys => name ++ writtenKeys keys

/-- Keys as they are written. -/
def writtenKeys : List Operand → String
  | [] => ""
  | key :: rest => "[" ++ key.written ++ "]" ++ writtenKeys rest

end

/-- A filter with its arguments, and its source text. -/
structure FilterUse where
  name : String
  arguments : List Operand
  named : List (String × Operand)
  source : String

/-- An operand with filters that are applied to it one after the other. -/
structure Chain where
  start : Operand
  filters : List FilterUse

/-- What a token of a tag is. -/
inductive TokenForm where
  | chain (value : Chain)
  | range (first last : Operand)
  | symbol

/-- A token of a tag with its source text and its place. -/
structure TagToken where
  form : TokenForm
  text : String
  place : Nat

/-- What an element is. The place of a tag is that of its name. Where an output or a tag opens but
cannot be read, a single character is unreadable, and `stop` is the place where reading stopped.
Places are given by how much of the template there is from them on. -/
inductive ElementForm where
  | text
  | output (chain : Chain)
  | tag (name : String) (place : Nat) (tokens : List TagToken)
  | unreadable (stop : Nat)

/-- An element with its source text and its place. -/
structure Element where
  form : ElementForm
  source : List Char
  place : Nat

end MessageTemplate.Engine
