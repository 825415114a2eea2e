import MessageTemplate.Engine.Markup
import MessageTemplate.Engine.Reader

/-! # From elements to instructions

The elements of a template are read from left to right by a machine that holds the blocks still
open, the innermost first. What is inside of a raw block or a comment is not looked at, except for
its end. -/

namespace MessageTemplate.Engine

open Template

/-- Where an open case distinction stands: before its first branch, where nothing counts; in a
branch; or in the last branch, which has no values. -/
inductive ChoicePart where
  | prelude
  | branch (values : List Operand)
  | otherwise

/-- What an open block will become. -/
inductive Block where
  | conditional (done : List (Guarded Instruction)) (current : Condition) (mayContinue : Bool)
  | conditionalElse (done : List (Guarded Instruction))
  | choose (subject : Operand) (done : List (Choice Instruction)) (part : ChoicePart)
  | loop (kind : LoopKind) (head : LoopHead)
  | loopElse (head : LoopHead) (body : List Instruction)
  | capture (target : String)
  | ifChanged
  | raw (text : List Char)
  | comment

/-- An open block: the name of its tag and the instructions that stand before it. -/
structure OpenBlock where
  block : Block
  name : String
  before : List Instruction

/-- The machine's state: the instructions of the current body and the open blocks. -/
structure Building where
  body : List Instruction
  blocks : List OpenBlock

namespace Building

/-- Nothing has been read. -/
def start : Building := ⟨[], []⟩

/-- Adds an instruction to the current body. -/
def add (state : Building) (instruction : Instruction) : Building :=
  { state with body := state.body ++ [instruction] }

/-- Opens a block. -/
def openBlock (state : Building) (name : String) (block : Block) : Building :=
  ⟨[], ⟨block, name, state.body⟩ :: state.blocks⟩

/-- Reads a tag that does not belong to the innermost open block. -/
def readTag (state : Building) (name : String) (line : String) : Markup.Reading Building :=
  match name with
  | "assign" => do
    let target ← Markup.name
    Markup.word "="
    let chain ← Markup.chain
    Markup.nothing
    return state.add (.assign target chain)
  | "break" => do Markup.nothing; return state.add (.interrupt .leave)
  | "continue" => do Markup.nothing; return state.add (.interrupt .skip)
  | "cycle" => do
    let (group, values) ← Markup.cycle
    return state.add (.cycle group values)
  | "increment" => do
    let counter ← Markup.name
    Markup.nothing
    return state.add (.countUp counter)
  | "decrement" => do
    let counter ← Markup.name
    Markup.nothing
    return state.add (.countDown counter)
  | "include" => do return state.add (.insert (← Markup.insertion))
  | "render" => do return state.add (.insert (← Markup.insertion))
  | "if" => do return state.openBlock name (.conditional [] (← Markup.condition) true)
  | "unless" => do
    return state.openBlock name (.conditional [] (.not (← Markup.condition)) false)
  | "for" => do return state.openBlock name (.loop .list (← Markup.loopHead .list))
  | "tablerow" => do return state.openBlock name (.loop .table (← Markup.loopHead .table))
  | "case" => do
    let subject ← Markup.operand
    Markup.nothing
    return state.openBlock name (.choose subject [] .prelude)
  | "capture" => do
    let target ← Markup.name
    Markup.nothing
    return state.openBlock name (.capture target)
  | "ifchanged" => do Markup.nothing; return state.openBlock name .ifChanged
  | "raw" => do Markup.nothing; return state.openBlock name (.raw [])
  | "comment" => do Markup.nothing; return state.openBlock name .comment
  | _ => throw (.unknownTag line name)

/-- The branches of a case distinction with the current body put where it belongs. -/
def settle (done : List (Choice Instruction)) (part : ChoicePart) (body : List Instruction) :
    List (Choice Instruction) :=
  match part with
  | .branch values => done ++ [⟨values, body⟩]
  | _ => done

/-- The instructions that an open block becomes when it is closed. -/
def closed (block : Block) (body : List Instruction) : List Instruction :=
  match block with
  | .conditional done current _ => [.conditional (done ++ [⟨current, body⟩]) []]
  | .conditionalElse done => [.conditional done body]
  | .choose subject done .otherwise => [.choose subject done body]
  | .choose subject done part => [.choose subject (settle done part body) []]
  | .loop kind head => [.loop kind head body []]
  | .loopElse head earlier => [.loop .list head earlier body]
  | .capture target => [.capture target body]
  | .ifChanged => [.ifChanged body]
  | .raw text => [.text (String.ofList text)]
  | .comment => []

/-- The block that a tag turns the innermost open one into, given the complete body, if the tag is
one of its branches. -/
def nextBranch? (block : Block) (body : List Instruction) (name : String) :
    Option (Markup.Reading Block) :=
  match block, name with
  | .conditional done current true, "elsif" => some do
    return .conditional (done ++ [⟨current, body⟩]) (← Markup.condition) true
  | .conditional done current _, "else" => some do
    Markup.nothing
    return .conditionalElse (done ++ [⟨current, body⟩])
  | .choose _ _ .otherwise, _ => none
  | .choose subject done part, "when" => some do
    return .choose subject (settle done part body) (.branch (← Markup.operands ["or", ","] false))
  | .choose subject done part, "else" => some do
    Markup.nothing
    return .choose subject (settle done part body) .otherwise
  | .loop .list head, "else" => some do
    Markup.nothing
    return .loopElse head body
  | _, _ => none

/-- Reads a tag inside the innermost open block. -/
def readInner (innermost : OpenBlock) (outer : List OpenBlock) (body : List Instruction)
    (name line : String) : Markup.Reading Building :=
  if name = "end" ++ innermost.name then do
    Markup.nothing
    return ⟨innermost.before ++ closed innermost.block body, outer⟩
  else
    match nextBranch? innermost.block body name with
    | some reading => do return ⟨[], { innermost with block := ← reading } :: outer⟩
    | none => readTag ⟨body, innermost :: outer⟩ name line

/-- The name of the tag that an element is. -/
def tagName? (element : Element) : Option String :=
  match element.form with
  | .tag name _ _ => some name
  | _ => none

/-- Reads an element whose content counts. -/
def readElement (template : List Char) (state : Building) (element : Element) :
    Except Fault Building :=
  match element.form with
  | .text => .ok (state.add (.text (String.ofList element.source)))
  | .output chain => do return state.add (.output (← Markup.checkChain chain))
  | .unreadable stop => .error (.unreadable (lineFrom template element.place stop))
  | .tag name place tokens =>
    let stop := ((tokens.getLast?).map TagToken.place).getD place
    let line := lineAt template place
    let reading := match state.blocks with
      | [] => readTag state name line
      | innermost :: outer => readInner innermost outer state.body name line
    reading.run' ⟨template, tokens, stop⟩

/-- One step: the state after an element. Inside of raw blocks and comments only ends count, and
the openings of comments in comments. -/
def step (template : List Char) (state : Building) (element : Element) :
    Except Fault Building :=
  match state.blocks with
  | ⟨.raw text, name, before⟩ :: outer =>
    if tagName? element = some "endraw" then readElement template state element
    else .ok { state with blocks := ⟨.raw (text ++ element.source), name, before⟩ :: outer }
  | ⟨.comment, _, _⟩ :: _ =>
    if tagName? element = some "endcomment" || tagName? element = some "comment" then
      readElement template state element
    else .ok state
  | _ => readElement template state element

/-- The instructions, once everything has been read. -/
def finish (template : List Char) (state : Building) : Except Fault (List Instruction) :=
  match state.blocks with
  | [] => .ok state.body
  | innermost :: _ => .error (.unclosed (lineAt template 0) innermost.name)

end Building

/-- The instructions of a template. -/
def compile (source : String) : Except Fault (List Instruction) := do
  let template := source.toList
  let state ← (elements template).foldlM (Building.step template) .start
  state.finish template

end MessageTemplate.Engine
