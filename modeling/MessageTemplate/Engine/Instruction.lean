import MessageTemplate.Engine.Element
import MessageTemplate.Template.Node

/-! # Instructions

What a template is compiled to. -/

namespace MessageTemplate.Engine

open Template

/-- How two values are compared. -/
inductive Comparison where
  | equal
  | unequal
  | less
  | greater
  | atMost
  | atLeast
  | contains
  deriving DecidableEq, Repr

/-- The comparison that a symbol or a word stands for. -/
def Comparison.ofText? : String → Option Comparison
  | "==" => some equal
  | "!=" => some unequal
  | "<>" => some unequal
  | "<" => some less
  | ">" => some greater
  | "<=" => some atMost
  | ">=" => some atLeast
  | "contains" => some contains
  | _ => none

/-- A condition. -/
inductive Condition where
  | holds (operand : Operand)
  | compare (comparison : Comparison) (left right : Operand)
  | both (left right : Condition)
  | either (left right : Condition)
  | not (condition : Condition)
  deriving Inhabited

/-- What a loop runs over. -/
inductive Source where
  | value (operand : Operand)
  | range (first last : Operand)
  deriving Inhabited

/-- The head of a loop. Rows of a table have a number of columns. -/
structure LoopHead where
  iterator : String
  source : Source
  limit : Option Operand
  offset : Option Operand
  columns : Option Operand
  reversed : Bool

/-- A branch behind a condition. -/
structure Guarded (α : Type) where
  condition : Condition
  body : List α

/-- A branch for some values. -/
structure Choice (α : Type) where
  values : List Operand
  body : List α

/-- What cuts a body short. -/
inductive Interrupt where
  | leave
  | skip
  deriving DecidableEq, Repr

/-- An instruction. -/
inductive Instruction where
  | text (content : String)
  | output (chain : Chain)
  | assign (target : String) (chain : Chain)
  | capture (target : String) (body : List Instruction)
  | conditional (branches : List (Guarded Instruction)) (otherwise : List Instruction)
  | choose (subject : Operand) (choices : List (Choice Instruction))
      (otherwise : List Instruction)
  | loop (kind : LoopKind) (head : LoopHead) (body otherwise : List Instruction)
  | cycle (group : String) (values : List Operand)
  | countUp (name : String)
  | countDown (name : String)
  | interrupt (kind : Interrupt)
  | ifChanged (body : List Instruction)
  | insert (name : Operand)

instance : Inhabited Instruction := ⟨.text ""⟩

end MessageTemplate.Engine
