import MessageTemplate.Template.Place

/-! # Expressions as they are written

A condition or an assigned value is a chain of operands between operators, with filters behind it. The
types of this module hold such an expression by its parts, together with the blanks between them, so that
its text and the paths that stand in it can be told apart by its structure. -/

namespace MessageTemplate.Template.Written

open Text

/-! ## Operands -/

/-- Blanks that may stand between two parts. -/
structure Gap where
  text : List Char
  isGap : IsGap text

/-- Blanks that set two parts off from each other. -/
structure Space extends Gap where
  full : text ≠ []

/-- A text between quotes, which may hold anything but the quote. -/
structure Quoted where
  quote : Char
  content : List Char
  isMark : isQuote quote = true
  absent : quote ∉ content

/-- A quoted text with its quotes. -/
def Quoted.text (quoted : Quoted) : List Char :=
  quoted.quote :: (quoted.content ++ [quoted.quote])

/-- Some digits. -/
structure Digits where
  text : List Char
  full : text ≠ []
  plain : text.all Char.isDigit = true

/-- A step of a path: a property behind a dot, or a position or a quoted key between brackets. -/
inductive Step where
  | property (word : List Char) (full : word ≠ []) (plain : word.all isReferenceChar = true)
  | position (digits : Digits)
  | key (quoted : Quoted)

/-- The text of a step. -/
def Step.text : Step → List Char
  | property word _ _ => '.' :: word
  | position digits => '[' :: (digits.text ++ [']'])
  | key quoted => '[' :: (quoted.text ++ [']'])

/-- The path of a variable. A name without steps is no reserved word. -/
structure Variable where
  start : Char
  word : List Char
  steps : List Step
  starts : isNameStart start = true
  plain : word.all isReferenceChar = true
  free : steps = [] → String.ofList (start :: word) ∉ keywords

namespace Variable

/-- The text of a variable. -/
def text (named : Variable) : List Char :=
  named.start :: (named.word ++ named.steps.flatMap Step.text)

/-- The path that a variable stands for. -/
def path (named : Variable) : String :=
  Path.normalize (String.ofList named.text)

end Variable

/-- The signs of numbers. -/
def signs : List (List Char) := [[], ['-'], ['+']]

/-- The exponent of a number. -/
structure Exponent where
  mark : Char
  sign : List Char
  digits : Digits
  isMark : mark = 'e' ∨ mark = 'E'
  signed : sign ∈ signs

/-- A number. -/
structure Number where
  sign : List Char
  whole : Digits
  fraction : Option Digits
  exponent : Option Exponent
  signed : sign ∈ signs

/-- The text of a number. -/
def Number.text (number : Number) : List Char :=
  number.sign ++ number.whole.text ++
    (number.fraction.elim [] fun digits => '.' :: digits.text) ++
    (number.exponent.elim [] fun exponent => exponent.mark :: (exponent.sign ++ exponent.digits.text))

/-- The words that stand for a value. -/
def literalWords : List String := ["true", "false", "nil", "null", "empty", "blank"]

/-- An operand. -/
inductive Operand where
  | path (named : Variable)
  | text (quoted : Quoted)
  | number (number : Number)
  | word (word : String) (isLiteral : word ∈ literalWords)

namespace Operand

/-- An operand as it is written. -/
def written : Operand → List Char
  | path given => given.text
  | text given => given.text
  | number given => given.text
  | word given _ => given.toList

/-- The variable that an operand is, if it is one. -/
def mentions : Operand → List Variable
  | path given => [given]
  | _ => []

end Operand

/-! ## Conditions -/

/-- Comparisons and connectives. -/
def operators : List String :=
  ["==", "!=", "<>", "<", ">", "<=", ">=", "contains", "and", "or"]

/-- An operator and the operand behind it. -/
structure Link where
  before : Space
  operator : String
  after : Space
  operand : Operand
  isOperator : operator ∈ operators

/-- The text of an operator and its operand. -/
def Link.text (link : Link) : List Char :=
  link.before.text ++ link.operator.toList ++ link.after.text ++ link.operand.written

/-! ## Filters -/

/-- The name of an argument, with the blanks around the colon behind it. -/
structure Label where
  start : Char
  word : List Char
  before : Gap
  after : Gap
  starts : isNameStart start = true
  plain : word.all isReferenceChar = true

/-- The text of a label. -/
def Label.text (label : Label) : List Char :=
  label.start :: (label.word ++ label.before.text ++ ':' :: label.after.text)

/-- An argument of a filter, with or without a label. -/
structure Argument where
  before : Gap
  label : Option Label
  operand : Operand
  after : Gap

/-- The text of an argument. -/
def Argument.text (argument : Argument) : List Char :=
  argument.before.text ++ argument.label.elim [] Label.text ++ argument.operand.written ++
    argument.after.text

/-- A filter: its name, with blanks around it, and its arguments. -/
structure Filter where
  name : List Char
  arguments : List Argument
  named : isName (trim name) = true

/-- The text of a filter: a colon stands before the first argument, and a comma before each other. -/
def Filter.text (filter : Filter) : List Char :=
  match filter.arguments with
  | [] => filter.name
  | first :: rest =>
    filter.name ++ ':' :: (first.text ++ rest.flatMap fun argument => ',' :: argument.text)

/-- An expression. -/
structure Expression where
  before : Gap
  first : Operand
  links : List Link
  after : Gap
  filters : List Filter

namespace Expression

/-- The text of the operands and operators of an expression. -/
def condition (expression : Expression) : List Char :=
  expression.before.text ++ expression.first.written ++ expression.links.flatMap Link.text ++
    expression.after.text

/-- The text of an expression. -/
def text (expression : Expression) : List Char :=
  expression.condition ++ expression.filters.flatMap fun filter => '|' :: filter.text

/-- The variables of an expression, in the order of its text. -/
def mentions (expression : Expression) : List Variable :=
  expression.first.mentions ++ (expression.links.flatMap fun link => link.operand.mentions) ++
    expression.filters.flatMap fun filter =>
      filter.arguments.flatMap fun argument => argument.operand.mentions

end Expression

end MessageTemplate.Template.Written
