import MessageTemplate.Template.Pieces
import MessageTemplate.Template.Markup

/-! # Building the tree

The pieces of a template are read from left to right by a machine that holds the blocks still
open, the innermost first. A tag opens a block, continues the innermost one with a further
branch, or closes it; a tag that does none of these stands for itself. The first tag that does
not fit is at fault, and at the end of the template the innermost block still open is. -/

namespace MessageTemplate.Template

/-- Where an open case distinction stands: before its first branch, where everything is
ignored; in a branch; or in the last branch, which has no values. -/
inductive CasePart where
  | prelude
  | branch (values : List String) (token : Token)
  | otherwise

/-- What an open block will become once its current body is complete. -/
inductive Block where
  | conditional (kind : ConditionalKind) (done : List (Branch Node)) (condition : Option String)
      (token : Token)
  | loopBody (kind : LoopKind) (header : LoopHeader)
  | loopElse (kind : LoopKind) (header : LoopHeader) (body : List Node)
  | case (subject : String) (done : List (When Node)) (otherwise : List Node) (part : CasePart)
  | capture (target : String)

/-- An open block: its opening tag and the nodes that stand before it. -/
structure OpenBlock where
  block : Block
  opening : Tag
  before : List Node

/-- The machine's state: the nodes of the current body and the open blocks. -/
structure Building where
  body : List Node
  blocks : List OpenBlock

namespace Building

/-- Nothing has been read. -/
def start : Building := ⟨[], []⟩

/-- Adds a node to the current body. -/
def add (state : Building) (node : Node) : Building :=
  { state with body := state.body ++ [node] }

/-- Opens a block. -/
def openBlock (state : Building) (opening : Tag) (block : Block) : Building :=
  ⟨[], ⟨block, opening, state.body⟩ :: state.blocks⟩

/-- Reads the opening tag of a conditional. -/
def openConditional (state : Building) (kind : ConditionalKind) (tag : Tag) :
    Except Fault Building :=
  if tag.markup = "" then .error ⟨.missingCondition kind.tagName, some tag.token⟩
  else .ok (state.openBlock tag (.conditional kind [] (some tag.markup) tag.token))

/-- Reads the opening tag of a loop. -/
def openLoop (state : Building) (kind : LoopKind) (tag : Tag) : Except Fault Building :=
  match loopHeader? tag.markup with
  | some header => .ok (state.openBlock tag (.loopBody kind header))
  | none => .error ⟨.invalidLoop kind.tagName, some tag.token⟩

/-- Reads the opening tag of a case distinction. -/
def openCase (state : Building) (tag : Tag) : Except Fault Building :=
  if tag.markup = "" then .error ⟨.missingSubject, some tag.token⟩
  else .ok (state.openBlock tag (.case tag.markup [] [] .prelude))

/-- Reads the opening tag of a capture. -/
def openCapture (state : Building) (tag : Tag) : Except Fault Building :=
  match captureTarget? tag.markup with
  | some target => .ok (state.openBlock tag (.capture target))
  | none => .error ⟨.missingTarget, some tag.token⟩

/-- Reads an assignment. -/
def readAssign (state : Building) (tag : Tag) : Except Fault Building :=
  match assignment? tag.markup with
  | some (target, expression) => .ok (state.add (.assign target expression tag.token))
  | none => .error ⟨.invalidAssign, some tag.token⟩

/-- Reads a tag that prints an expression. -/
def readEcho (state : Building) (tag : Tag) : Except Fault Building :=
  if tag.markup = "" then .error ⟨.missingExpression, some tag.token⟩
  else .ok (state.add (.output tag.markup tag.token))

/-- Whether a tag with this name must belong to an open block. -/
def needsBlock (name : String) : Bool :=
  ['e', 'n', 'd'].isPrefixOf name.toList || ["else", "elsif", "when"].contains name

/-- Reads a tag that does not belong to the innermost open block. -/
def readTag (state : Building) (tag : Tag) : Except Fault Building :=
  if needsBlock tag.name then .error ⟨.unexpected tag.name, some tag.token⟩
  else
    match tag.name with
    | "if" => state.openConditional .positive tag
    | "unless" => state.openConditional .negative tag
    | "for" => state.openLoop .list tag
    | "tablerow" => state.openLoop .table tag
    | "case" => state.openCase tag
    | "capture" => state.openCapture tag
    | "assign" => state.readAssign tag
    | "echo" => state.readEcho tag
    | _ => .ok (state.add (.tag tag))

/-- The branches of a case distinction with the current body put where it belongs. -/
def settleCase (done : List (When Node)) (otherwise : List Node) (part : CasePart)
    (body : List Node) : List (When Node) × List Node :=
  match part with
  | .prelude => (done, otherwise)
  | .branch values token => (done ++ [⟨values, body, token⟩], otherwise)
  | .otherwise => (done, body)

/-- The node that an open block becomes when it is closed. -/
def closeNode (block : Block) (opening : Tag) (body : List Node) : Node :=
  match block with
  | .conditional kind done condition token =>
    .conditional kind (done ++ [⟨condition, body, token⟩])
  | .loopBody kind header =>
    .loop kind header.iterator header.collection header.params body [] opening.token
  | .loopElse kind header earlier =>
    .loop kind header.iterator header.collection header.params earlier body opening.token
  | .case subject done otherwise part =>
    let (whens, otherwise) := settleCase done otherwise part body
    .case subject whens otherwise opening.token
  | .capture target => .capture target body opening.token

/-- The name of the tag that closes a block. -/
def closingName (block : Block) : String :=
  match block with
  | .conditional kind _ _ _ => "end" ++ kind.tagName
  | .loopBody kind _ => "end" ++ kind.tagName
  | .loopElse kind _ _ => "end" ++ kind.tagName
  | .case _ _ _ _ => "endcase"
  | .capture _ => "endcapture"

/-- The block that a tag turns the innermost open one into, given the complete body, if the tag
is one of its branches. -/
def nextBranch? (block : Block) (body : List Node) (tag : Tag) : Option (Except Fault Block) :=
  match block, tag.name with
  | .conditional kind done (some condition) token, "elsif" =>
    if tag.markup = "" then some (.error ⟨.missingCondition "elsif", some tag.token⟩)
    else some (.ok
      (.conditional kind (done ++ [⟨some condition, body, token⟩]) (some tag.markup) tag.token))
  | .conditional kind done (some condition) token, "else" =>
    some (.ok (.conditional kind (done ++ [⟨some condition, body, token⟩]) none tag.token))
  | .loopBody kind header, "else" => some (.ok (.loopElse kind header body))
  | .case _ _ _ .otherwise, _ => none
  | .case subject done otherwise part, "when" =>
    if (whenValues tag.markup).isEmpty then some (.error ⟨.missingValue, some tag.token⟩)
    else
      let (whens, otherwise) := settleCase done otherwise part body
      some (.ok (.case subject whens otherwise (.branch (whenValues tag.markup) tag.token)))
  | .case subject done otherwise part, "else" =>
    let (whens, otherwise) := settleCase done otherwise part body
    some (.ok (.case subject whens otherwise .otherwise))
  | _, _ => none

/-- One step: the state after a piece. -/
def step (state : Building) (piece : Piece) : Except Fault Building :=
  match piece with
  | .text content => .ok (state.add (.text content))
  | .output markup token => .ok (state.add (.output markup token))
  | .tag tag =>
    match state.blocks with
    | [] => state.readTag tag
    | innermost :: outer =>
      if tag.name = closingName innermost.block then
        .ok ⟨innermost.before ++ [closeNode innermost.block innermost.opening state.body], outer⟩
      else
        match nextBranch? innermost.block state.body tag with
        | some next => next.map fun block => ⟨[], { innermost with block := block } :: outer⟩
        | none => state.readTag tag

/-- The nodes, once everything has been read. -/
def finish (state : Building) : Except Fault (List Node) :=
  match state.blocks with
  | [] => .ok state.body
  | innermost :: _ =>
    .error ⟨.unclosed innermost.opening.name, some innermost.opening.token⟩

end Building

/-- The tree of a list of pieces. -/
def build (pieces : List Piece) : Except Fault (List Node) := do
  (← pieces.foldlM Building.step .start).finish

/-- The tree of a template. -/
def parse (source : String) : Except Fault (List Node) := do
  build (← pieces source)

end MessageTemplate.Template
