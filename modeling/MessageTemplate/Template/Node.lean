import MessageTemplate.Template.Token

/-! # Templates as trees -/

namespace MessageTemplate.Template

/-- The two kinds of loops. -/
inductive LoopKind where
  | list
  | table
  deriving DecidableEq, Repr

/-- The name of the tag that opens a loop. -/
def LoopKind.tagName : LoopKind → String
  | list => "for"
  | table => "tablerow"

/-- The two kinds of conditionals. -/
inductive ConditionalKind where
  | positive
  | negative
  deriving DecidableEq, Repr

/-- The name of the tag that opens a conditional. -/
def ConditionalKind.tagName : ConditionalKind → String
  | positive => "if"
  | negative => "unless"

/-- What a loop runs over: whole numbers between two bounds, or the value of an expression. -/
inductive Collection where
  | range (first last : String)
  | expression (text : String)
  deriving DecidableEq, Repr

/-- A branch of a conditional; the last one may be without a condition. -/
structure Branch (α : Type) where
  condition : Option String
  body : List α
  token : Token

/-- A branch of a case distinction with the values it stands for. -/
structure When (α : Type) where
  values : List String
  body : List α
  token : Token

/-- A node of a template. -/
inductive Node where
  | text (content : String)
  | output (expression : String) (token : Token)
  | assign (target expression : String) (token : Token)
  | capture (target : String) (body : List Node) (token : Token)
  | loop (kind : LoopKind) (iterator : String) (collection : Collection) (params : String)
      (body otherwise : List Node) (token : Token)
  | conditional (kind : ConditionalKind) (branches : List (Branch Node))
  | case (subject : String) (whens : List (When Node)) (otherwise : List Node) (token : Token)
  | tag (tag : Tag)

instance : Inhabited Node := ⟨.text ""⟩

end MessageTemplate.Template
