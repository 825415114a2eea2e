import MessageTemplate.Engine.Filter
import MessageTemplate.Engine.Instruction

/-! # Rendering

Instructions print text and change the state of the rendering. A name is looked up in the loops
around, from the inside out, then among the names that the template has assigned, then in the
variables that are given, and then among the counters. -/

namespace MessageTemplate.Engine

/-- The state of a rendering: assigned names, counters, the positions of cycles, the text that was
last printed by a part that is printed when it changes, and what cuts the current body short. -/
structure State where
  assigned : Keyed Value
  counters : Keyed Int
  cycles : Keyed Nat
  lastPart : Option String
  interrupt : Option Interrupt

namespace State

/-- The state at the start. -/
def start : State := ⟨[], [], [], none, none⟩

end State

/-- What names mean at a place: the variables of the loops around it, the innermost first, and the
variables that are given. -/
structure Surroundings where
  loops : List (Keyed Value)
  globals : Keyed Value

/-- A step of a rendering. -/
abbrev Step := StateT State (Except Failure)

namespace Surroundings

/-- The surroundings inside of a loop. -/
def inLoop (around : Surroundings) (own : List (String × Value)) : Surroundings :=
  { around with loops := Keyed.ofList own :: around.loops }

/-- The variables that hold a name, of all that do the innermost. -/
def holding? (around : Surroundings) (state : State) (name : String) : Option (Keyed Value) :=
  let counters := state.counters.map fun (name, value) => (name, Value.integer value)
  (around.loops ++ [state.assigned, around.globals, counters]).find? (Keyed.has name)

/-- The value that a name and keys lead to. -/
def find? (around : Surroundings) (state : State) (name : String) (keys : List Value) :
    Option Value := do
  let holder ← around.holding? state name
  let value ← Keyed.get? name holder
  value.parts? keys

end Surroundings

/-- Fails. -/
def Step.fail {α : Type} (failure : Failure) : Step α := throw failure

section Evaluation

variable (around : Surroundings)

mutual

/-- The value of an operand. -/
def evaluate : Operand → Step Value
  | .literal value => return value
  | .lookup name keys => do
    let keys ← evaluateKeys keys
    match around.find? (← get) name keys with
    | some value => return value
    | none => Step.fail (.unknownVariable (".".intercalate (name :: keys.map Value.text)))

/-- The values of keys, which must be scalars. -/
def evaluateKeys : List Operand → Step (List Value)
  | [] => return []
  | key :: rest => do
    let value ← evaluate key
    if value.isScalar then return value :: (← evaluateKeys rest)
    else Step.fail (.badKey value.text)

end

/-- The value of an operand, if it has one. -/
def evaluate? (operand : Operand) : Step (Option Value) := fun state =>
  match (evaluate around operand).run state with
  | .ok (value, state) => .ok (some value, state)
  | .error _ => .ok (none, state)

/-- Applies a filter to a value. -/
def applyFilter (value : Value) (use : FilterUse) : Step Value := do
  let arguments ← use.arguments.mapM (evaluate around)
  match Filter.find? use.name with
  | some filter => filter.apply value arguments
  | none => Step.fail (.unavailable use.name)

/-- The value of a chain of filters. -/
def evaluateChain (chain : Chain) : Step Value := do
  chain.filters.foldlM (applyFilter around) (← evaluate around chain.start)

/-- A whole number. -/
def evaluateWhole (operand : Operand) : Step Int := do
  let value ← evaluate around operand
  match value.integer? with
  | some number => return number
  | none => Step.fail (.notWhole value.text)

/-- A count, if there is an operand for it. -/
def evaluateCount? (operand : Option Operand) : Step (Option Nat) :=
  match operand with
  | none => return none
  | some operand => do return some (Filter.asCount (← evaluateWhole around operand))

/-! ## Conditions -/

/-- Whether a value contains another one: a text another text, an object a key, an array an
item. -/
def containsValue (container item : Value) : Step Bool :=
  match container with
  | .array items => return items.any (Value.equals · item)
  | .object members => return item.isScalar && Keyed.has item.text members
  | value =>
    if value.isScalar then return Text.occurs item.text.toList value.text.toList
    else Step.fail .cannotContain

/-- Compares two values. -/
def compareValues (comparison : Comparison) (left right : Value) : Step Bool :=
  match comparison with
  | .equal => return left.equals right
  | .unequal => return !left.equals right
  | .less => return left.compare? right = some .lt
  | .greater => return left.compare? right = some .gt
  | .atMost => return (left.compare? right).any (· ≠ .gt)
  | .atLeast => return (left.compare? right).any (· ≠ .lt)
  | .contains => containsValue left right

/-- Whether a condition holds. A single operand that has no value does not. -/
def test : Condition → Step Bool
  | .holds operand => do return ((← evaluate? around operand).getD .nil).isTrue
  | .compare comparison left right => do
    compareValues comparison (← evaluate around left) (← evaluate around right)
  | .both left right => do if ← test left then test right else return false
  | .either left right => do if ← test left then return true else test right
  | .not condition => do return !(← test condition)

/-- Whether a value is among the values of some operands. -/
def isAmong (value : Value) : List Operand → Step Bool
  | [] => return false
  | operand :: rest => do
    if (← evaluate around operand).equals value then return true else isAmong value rest

/-! ## Loops -/

/-- The items that a value is run through: those of an array, the members of an object as pairs,
and none of nothing. -/
def itemsOf (value : Value) : Step (List Value) :=
  match value with
  | .array items => return items
  | .object members =>
    return members.map fun (key, value) => .array [.string key, value]
  | value => if value.isScalar then Step.fail .notIterable else return []

/-- The whole numbers from one to another. -/
def wholeNumbers (first last : Int) : List Value :=
  (List.range (last - first + 1).toNat).map fun (offset : Nat) => .integer (first + offset)

/-- The items that a loop runs through, before any are left out. -/
def sourceItems (source : Source) : Step (List Value) :=
  match source with
  | .value operand => do itemsOf (← evaluate around operand)
  | .range first last => do
    return wholeNumbers (← evaluateWhole around first) (← evaluateWhole around last)

/-- The items behind an offset, cut off or filled up with nothing to a limit. The limit counts no
further than there are items before the offset is taken. -/
def slice (items : List Value) (limit : Option Nat) (offset : Nat) : List Value :=
  let rest := items.drop offset
  let size := (limit.map fun limit => min limit items.length).getD rest.length
  rest.take size ++ List.replicate (size - rest.length) .nil

/-- The items that a loop runs through. -/
def loopItems (head : LoopHead) : Step (List Value) := do
  let items ← sourceItems around head.source
  let limit ← evaluateCount? around head.limit
  let offset ← evaluateCount? around head.offset
  let items := slice items limit (offset.getD 0)
  return if head.reversed then items.reverse else items

/-- What a loop tells about its state, given the position of the item and the number of items. -/
def loopState (index size : Nat) : List (String × Value) :=
  [("length", .integer size), ("index", .integer (index + 1)), ("index0", .integer index),
    ("rindex", .integer (size - index)), ("rindex0", .integer (size - index - 1)),
    ("first", .bool (index = 0)), ("last", .bool (index + 1 = size))]

/-- What a table tells about its state. -/
def tableState (index size columns : Nat) : List (String × Value) :=
  let column := index % columns
  loopState index size ++
    [("col", .integer (column + 1)), ("col0", .integer column),
      ("col_first", .bool (column = 0)),
      ("col_last", .bool (column + 1 = columns || index + 1 = size))]

/-- What surrounds a cell of a table. -/
def tableCell (index size columns : Nat) (content : String) : String :=
  let row := if index % columns = 0 then
      "<tr class=\"row" ++ toString (index / columns + 1) ++ "\">" else ""
  let closing := if index % columns + 1 = columns || index + 1 = size then "</tr>" else ""
  row ++ "<td class=\"col" ++ toString (index % columns + 1) ++ "\">" ++ content ++ "</td>" ++
    closing

/-- The variables inside of a loop. -/
def loopVariables (kind : Template.LoopKind) (head : LoopHead) (index size columns : Nat)
    (item : Value) : List (String × Value) :=
  match kind with
  | .list =>
    let outer := ((around.loops.findSome? (Keyed.get? "forloop")).getD .nil)
    [("forloop", .object (Keyed.ofList (("parentloop", outer) :: loopState index size))),
      (head.iterator, item)]
  | .table =>
    [("tablerowloop", .object (Keyed.ofList (tableState index size columns))),
      (head.iterator, item)]

/-- What a round of a loop prints around its text. -/
def loopRound (kind : Template.LoopKind) (index size columns : Nat) (content : String) :
    String :=
  match kind with
  | .list => content
  | .table => tableCell index size columns content

/-- Runs rounds, each with the position of its item, until one of them is left. -/
def runRounds (round : Nat → Value → Step String) : Nat → List Value → Step String
  | _, [] => return ""
  | index, item :: rest => do
    let printed ← round index item
    let interrupt := (← get).interrupt
    modify fun state => { state with interrupt := none }
    if interrupt = some .leave then return printed
    else return printed ++ (← runRounds round (index + 1) rest)

end Evaluation

/-! ## Instructions -/

/-- Counts a counter, which starts at zero, and gives its value before or after. -/
def count (name : String) (step : Int) : Step Int := do
  let value := (Keyed.get? name (← get).counters).getD 0
  modify fun state =>
    { state with counters := Keyed.insert name (Filter.wrapInteger (value + step)) state.counters }
  return value

/-- The next position of a group of cycles. -/
def nextInCycle (group : String) (size : Nat) : Step Nat := do
  let position := (Keyed.get? group (← get).cycles).getD 0
  modify fun state =>
    { state with cycles := Keyed.insert group ((position + 1) % size) state.cycles }
  return position

/-- Assigns a value to a name. -/
def assign (name : String) (value : Value) : Step Unit :=
  modify fun state => { state with assigned := Keyed.insert name value state.assigned }

/-- The text of a part that is printed when it changes. -/
def changedPart (printed : String) : Step String := do
  let last := (← get).lastPart
  modify fun state => { state with lastPart := some printed }
  return if last = some printed then "" else printed

mutual

/-- Runs an instruction, and gives what it prints. -/
def run (around : Surroundings) : Instruction → Step String
  | .text content => return content
  | .output chain => do return (← evaluateChain around chain).text
  | .assign target chain => do
    assign target (← evaluateChain around chain)
    return ""
  | .capture target body => do
    assign target (.string (← runAll around body))
    return ""
  | .conditional branches otherwise => do
    match ← runBranches around branches with
    | some printed => return printed
    | none => runAll around otherwise
  | .choose subject choices otherwise => do
    match ← runChoices around (← evaluate around subject) choices with
    | some printed => return printed
    | none => runAll around otherwise
  | .loop kind head body otherwise => do
    let items ← loopItems around head
    let columns := ((← evaluateCount? around head.columns).getD items.length)
    if items.isEmpty then runAll around otherwise
    else
      runRounds (fun index item => do
        let own := loopVariables around kind head index items.length columns item
        return loopRound kind index items.length columns
          (← runAll (around.inLoop own) body)) 0 items
  | .cycle group values => do
    let position ← nextInCycle group values.length
    match values[position]? with
    | some value => return (← evaluate around value).text
    | none => return ""
  | .countUp name => do return toString (← count name 1)
  | .countDown name => do return toString ((← count name (-1)) - 1)
  | .interrupt kind => do
    modify fun state => { state with interrupt := some kind }
    return ""
  | .ifChanged body => do changedPart (← runAll around body)
  | .insert name => do Step.fail (.unknownPartial (← evaluate around name).text)

/-- Runs instructions until the body is cut short. -/
def runAll (around : Surroundings) : List Instruction → Step String
  | [] => return ""
  | instruction :: rest => do
    let printed ← run around instruction
    if (← get).interrupt.isSome then return printed
    else return printed ++ (← runAll around rest)

/-- Runs the first branch whose condition holds, if there is one. -/
def runBranches (around : Surroundings) :
    List (Guarded Instruction) → Step (Option String)
  | [] => return none
  | ⟨condition, body⟩ :: rest => do
    if ← test around condition then return some (← runAll around body)
    else runBranches around rest

/-- Runs the first branch for a value, if there is one. -/
def runChoices (around : Surroundings) (value : Value) :
    List (Choice Instruction) → Step (Option String)
  | [] => return none
  | ⟨values, body⟩ :: rest => do
    if ← isAmong around value values then return some (← runAll around body)
    else runChoices around value rest

end

/-- The text of some instructions, given variables. -/
def render (instructions : List Instruction) (globals : Keyed Value) :
    Except Failure String := do
  return (← (runAll ⟨[], globals⟩ instructions).run .start).1

end MessageTemplate.Engine
