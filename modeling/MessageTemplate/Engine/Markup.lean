import MessageTemplate.Engine.Fault
import MessageTemplate.Engine.Filter
import MessageTemplate.Engine.Instruction

/-! # The tokens of tags

What the tokens behind the name of a tag mean. Tokens are taken from the left; the first one that
does not fit is at fault. -/

namespace MessageTemplate.Engine

/-- The tokens of a tag with the template that their places belong to, and the place where they
end. -/
structure Markup where
  template : List Char
  tokens : List TagToken
  stop : Nat

namespace Markup

/-- Reading tokens, one after the other. -/
abbrev Reading := StateT Markup (Except Fault)

/-- The fault of a token, or of the end of the tag. -/
def fault (markup : Markup) (token : Option TagToken) (expected : String) : Fault :=
  .unexpected (lineAt markup.template ((token.map TagToken.place).getD markup.stop)) expected

/-- The next token, which is taken. -/
def next? : Reading (Option TagToken) := do
  let markup ← get
  match markup.tokens with
  | [] => return none
  | token :: rest =>
    set { markup with tokens := rest }
    return some token

/-- Refuses a token. -/
def refuse {α : Type} (token : Option TagToken) (expected : String) : Reading α := do
  throw ((← get).fault token expected)

/-- The next token, if it has a certain form. -/
def next {α : Type} (form? : TagToken → Option α) (expected : String) : Reading α := do
  let token ← next?
  match token.bind form? with
  | some found => return found
  | none => refuse token expected

/-- The operand that a token is. -/
def operandOf? (token : TagToken) : Option Operand :=
  match token.form with
  | .chain ⟨start, []⟩ => some start
  | _ => none

/-- The name that a token is. -/
def nameOf? (token : TagToken) : Option String :=
  match operandOf? token with
  | some (.lookup name []) => some name
  | _ => none

/-- What a loop may run over, as a token. -/
def sourceOf? (token : TagToken) : Option Source :=
  match token.form with
  | .range first last => some (.range first last)
  | _ => (operandOf? token).map .value

/-- The next token as an operand. -/
def operand : Reading Operand := next operandOf? "Value"

/-- The next token as a name. -/
def name : Reading String := next nameOf? "Identifier"

/-- The next token, which must be a certain word or symbol. -/
def word (text : String) : Reading Unit :=
  next (fun token => if token.text = text then some () else none) ("\"" ++ text ++ "\"")

/-- The end of the tag. -/
def nothing : Reading Unit := do
  let token ← next?
  if token.isSome then refuse token "End of tag"

/-- All tokens, read one at a time with what has been found so far. -/
def each {α : Type} (step : α → TagToken → Reading α) (start : α) : Reading α := do
  let markup ← get
  let result ← markup.tokens.foldlM step start
  modify fun markup => { markup with tokens := [] }
  return result

/-- Checks the filters of a chain: each must be known and take as many arguments as it is given,
none of them by name. -/
def checkFilter (filter : FilterUse) : Except Fault Unit :=
  match Filter.find? filter.name with
  | none => .error (.unknownFilter filter.name)
  | some found =>
    if filter.named.isEmpty && found.least ≤ filter.arguments.length
        && filter.arguments.length ≤ found.most then .ok ()
    else .error (.wrongArguments filter.source)

/-- A chain whose filters are all in order. -/
def checkChain (chain : Chain) : Except Fault Chain := do
  chain.filters.forM checkFilter
  return chain

/-- The next token as a chain. -/
def chain : Reading Chain := do
  let found ← next (fun token =>
    match token.form with
    | .chain chain => some chain
    | _ => none) "FilterChain"
  checkChain found

/-! ## Conditions -/

/-- How far a condition has been read: the alternatives and the conjuncts before the current
comparison, and the parts of it. -/
inductive ConditionStage where
  | start
  | operand (left : Operand)
  | comparison (left : Operand) (comparison : Comparison)
  | complete (condition : Condition)

/-- A condition that is being read. -/
structure ConditionReading where
  alternatives : Option Condition
  conjuncts : Option Condition
  stage : ConditionStage

namespace ConditionReading

/-- Nothing has been read. -/
def begin : ConditionReading := ⟨none, none, .start⟩

/-- Puts a condition behind those before it. -/
def append (join : Condition → Condition → Condition) (before : Option Condition)
    (condition : Condition) : Condition :=
  match before with
  | some before => join before condition
  | none => condition

/-- Goes on behind a complete comparison with a word. -/
def connect? (reading : ConditionReading) (condition : Condition) (text : String) :
    Option ConditionReading :=
  let conjunction := append .both reading.conjuncts condition
  match text with
  | "and" => some { reading with conjuncts := some conjunction, stage := .start }
  | "or" => some ⟨some (append .either reading.alternatives conjunction), none, .start⟩
  | _ => none

/-- Goes on with a token. -/
def step? (reading : ConditionReading) (token : TagToken) : Option ConditionReading :=
  match reading.stage with
  | .start => (operandOf? token).map fun left => { reading with stage := .operand left }
  | .operand left =>
    match Comparison.ofText? token.text with
    | some comparison => some { reading with stage := .comparison left comparison }
    | none => reading.connect? (.holds left) token.text
  | .comparison left comparison =>
    (operandOf? token).map fun right =>
      { reading with stage := .complete (.compare comparison left right) }
  | .complete condition => reading.connect? condition token.text

/-- The condition, once all tokens have been read. -/
def finish? (reading : ConditionReading) : Option Condition :=
  let close (condition : Condition) : Condition :=
    append .either reading.alternatives (append .both reading.conjuncts condition)
  match reading.stage with
  | .operand left => some (close (.holds left))
  | .complete condition => some (close condition)
  | _ => none

end ConditionReading

/-- All tokens as a condition. -/
def condition : Reading Condition := do
  let reading ← each (fun reading token =>
    match ConditionReading.step? reading token with
    | some next => pure next
    | none => refuse (some token) "Condition") .begin
  match reading.finish? with
  | some condition => return condition
  | none => refuse none "Value"

/-! ## Lists -/

/-- Operands with separators between them: an operand, and what has been read before it. -/
structure ListReading where
  operands : List Operand
  separated : Bool

/-- All tokens as operands between separators. A separator at the end is allowed or not. -/
def operands (separators : List String) (mayEndOpen : Bool) : Reading (List Operand) := do
  let reading ← each (fun (reading : ListReading) token =>
    if reading.separated then
      match operandOf? token with
      | some operand => pure ⟨reading.operands ++ [operand], false⟩
      | none => refuse (some token) "Value"
    else if separators.contains token.text then pure { reading with separated := true }
    else refuse (some token) (" or ".intercalate separators)) ⟨[], true⟩
  if reading.separated && !mayEndOpen then refuse none "Value" else return reading.operands

/-! ## Loops -/

/-- The name of a parameter whose value is still to come, and how far it has been read. -/
structure HeadReading where
  head : LoopHead
  pending : Option (String × Bool)

/-- The head with the value of a parameter. -/
def withParameter (head : LoopHead) (name : String) (value : Operand) : LoopHead :=
  match name with
  | "limit" => { head with limit := some value }
  | "offset" => { head with offset := some value }
  | _ => { head with columns := some value }

/-- The parameters of the two kinds of loops. -/
def parameters : Template.LoopKind → List String
  | .list => ["limit", "offset"]
  | .table => ["cols", "limit", "offset"]

/-- Goes on with a token behind the collection of a loop. -/
def headStep? (kind : Template.LoopKind) (reading : HeadReading) (token : TagToken) :
    Option HeadReading :=
  match reading.pending with
  | none =>
    if (parameters kind).contains token.text then
      some { reading with pending := some (token.text, false) }
    else if kind = .list && token.text = "reversed" then
      some { reading with head := { reading.head with reversed := true } }
    else none
  | some (name, false) =>
    if token.text = ":" then some { reading with pending := some (name, true) } else none
  | some (name, true) =>
    (operandOf? token).map fun value => ⟨withParameter reading.head name value, none⟩

/-- All tokens as the head of a loop. -/
def loopHead (kind : Template.LoopKind) : Reading LoopHead := do
  let iterator ← name
  word "in"
  let source ← next sourceOf? "Array or range"
  let start : HeadReading := ⟨⟨iterator, source, none, none, none, false⟩, none⟩
  let reading ← each (fun reading token =>
    match headStep? kind reading token with
    | some next => pure next
    | none => refuse (some token) (" or ".intercalate (parameters kind))) start
  if reading.pending.isSome then refuse none "Value" else return reading.head

/-! ## Cycles -/

/-- The name of a group of cycles, as a token: a name or a literal. -/
def groupOf? (token : TagToken) : Option String :=
  match operandOf? token with
  | some (.lookup name []) => some name
  | some (.literal value) => some value.text
  | _ => none

/-- All tokens as a cycle: its group and its values. A group that is not named is known by its
values. -/
def cycle : Reading (String × List Operand) := do
  match (← get).tokens with
  | [] => refuse none "Identifier or value"
  | _ :: ⟨_, ":", _⟩ :: _ =>
    let group ← next groupOf? "Identifier or value"
    word ":"
    return (group, ← operands [","] true)
  | _ =>
    let values ← operands [","] true
    return ("-".intercalate (values.map Operand.written), values)

/-! ## Inserted templates -/

/-- How far the variables for an inserted template have been read. -/
inductive VariableStage where
  | start
  | label
  | value
  | after
  deriving DecidableEq, Repr

/-- Goes on with a token among the variables for an inserted template. -/
def variableStep? (stage : VariableStage) (token : TagToken) : Option VariableStage :=
  match stage with
  | .start => (nameOf? token).map fun _ => .label
  | .label => if token.text = ":" then some .value else none
  | .value => (operandOf? token).map fun _ => .after
  | .after => if token.text = "," then some .start else none

/-- All tokens as the name of an inserted template and variables for it. -/
def insertion : Reading Operand := do
  let template ← operand
  let stage ← each (fun stage token =>
    match variableStep? stage token with
    | some next => pure next
    | none => refuse (some token) "Variable") .start
  if stage = .label || stage = .value then refuse none "Value" else return template

end Markup

end MessageTemplate.Engine
