import MessageTemplate.Template.Blocks

/-! # The grammar of blocks

Which phrases a row of pieces consists of, and which node each phrase stands for. A block is a row of
clauses with a closing tag behind them; a clause is a tag with the phrases behind it. Which clauses
make up a block is said of the clauses once their bodies have been read (`BlockRule`), so the rules
are not entangled with each other. What stands before the first branch of a case distinction has to
be a body too, although nothing is kept of it.

Pieces are viable if more pieces can complete them to a body. A block is the innermost one that is
open if its closing tag is all that it lacks. -/

namespace MessageTemplate.Template

/-- A tag with what stands behind it, up to the next tag of the same block. -/
structure Clause (α : Type) where
  tag : Tag
  body : List α

/-- What a row of pieces consists of. -/
inductive Phrase where
  | text (content : String)
  | output (markup : String) (token : Token)
  | tag (tag : Tag)
  | block (clauses : List (Clause Phrase)) (closing : Tag)

mutual

/-- The pieces of a phrase. -/
def Phrase.pieces : Phrase → List Piece
  | .text content => [.text content]
  | .output markup token => [.output markup token]
  | .tag tag => [.tag tag]
  | .block clauses closing => piecesOfClauses clauses ++ [.tag closing]

/-- The pieces of phrases following each other. -/
def piecesOfAll : List Phrase → List Piece
  | [] => []
  | phrase :: rest => phrase.pieces ++ piecesOfAll rest

/-- The pieces of clauses following each other. -/
def piecesOfClauses : List (Clause Phrase) → List Piece
  | [] => []
  | ⟨tag, body⟩ :: rest => .tag tag :: (piecesOfAll body ++ piecesOfClauses rest)

end

/-! ## Which clauses make up a block -/

/-- The names of tags that have a meaning of their own. -/
def reservedNames : List String :=
  ["if", "unless", "for", "tablerow", "case", "capture", "assign", "echo", "else", "elsif", "when"]

/-- Whether a tag with this name stands for itself. -/
def standsAlone (name : String) : Bool :=
  !(reservedNames.contains name || ['e', 'n', 'd'].isPrefixOf name.toList)

/-- A tag that opens a conditional. -/
def OpensConditional (kind : ConditionalKind) (tag : Tag) : Prop :=
  tag.name = kind.tagName ∧ tag.markup ≠ ""

/-- A tag that opens a further branch of a conditional with a condition. -/
def OpensElsif (tag : Tag) : Prop :=
  tag.name = "elsif" ∧ tag.markup ≠ ""

/-- A tag that opens a loop. -/
def OpensLoop (kind : LoopKind) (header : LoopHeader) (tag : Tag) : Prop :=
  tag.name = kind.tagName ∧ loopHeader? tag.markup = some header

/-- A tag that opens a case distinction. -/
def OpensCase (tag : Tag) : Prop :=
  tag.name = "case" ∧ tag.markup ≠ ""

/-- A tag that opens a branch of a case distinction. -/
def OpensWhen (tag : Tag) : Prop :=
  tag.name = "when" ∧ whenValues tag.markup ≠ []

/-- A tag that opens a capture. -/
def OpensCapture (target : String) (tag : Tag) : Prop :=
  tag.name = "capture" ∧ captureTarget? tag.markup = some target

/-- A row that starts with one kind of elements and goes on with another. -/
def Headed {α : Type} (first others : α → Prop) : List α → Prop
  | [] => False
  | head :: rest => first head ∧ ∀ other ∈ rest, others other

/-- At most one clause, which nothing else leads to. -/
inductive IsLast {α : Type} : List (Clause α) → Prop where
  | none : IsLast []
  | otherwise {tag : Tag} {body : List α} : tag.name = "else" → IsLast [⟨tag, body⟩]

namespace Clause

/-- A clause as a branch that a condition leads to. -/
def conditioned (clause : Clause Node) : Branch Node :=
  ⟨some clause.tag.markup, clause.body, clause.tag.token⟩

/-- A clause as the branch that nothing else leads to. -/
def unconditioned (clause : Clause Node) : Branch Node :=
  ⟨none, clause.body, clause.tag.token⟩

/-- A clause as a branch of a case distinction. -/
def when (clause : Clause Node) : When Node :=
  ⟨whenValues clause.tag.markup, clause.body, clause.tag.token⟩

end Clause

/-- Which clauses make up a block, and which node the block stands for. -/
inductive BlockRule : List (Clause Node) → Node → Prop where
  | conditional {kind : ConditionalKind} {clauses last : List (Clause Node)} :
      Headed (OpensConditional kind) OpensElsif (clauses.map Clause.tag) → IsLast last →
      BlockRule (clauses ++ last)
        (.conditional kind (clauses.map Clause.conditioned ++ last.map Clause.unconditioned))
  | loop {kind : LoopKind} {header : LoopHeader} {first : Clause Node}
      {last : List (Clause Node)} :
      OpensLoop kind header first.tag → IsLast last →
      BlockRule (first :: last) (.loop kind header.iterator header.collection header.params
        first.body (last.flatMap Clause.body) first.tag.token)
  | case {first : Clause Node} {whens last : List (Clause Node)} :
      OpensCase first.tag → (∀ clause ∈ whens, OpensWhen clause.tag) → IsLast last →
      BlockRule (first :: (whens ++ last)) (.case first.tag.markup (whens.map Clause.when)
        (last.flatMap Clause.body) first.tag.token)
  | capture {first : Clause Node} {target : String} :
      OpensCapture target first.tag →
      BlockRule [first] (.capture target first.body first.tag.token)

/-! ## Derivations -/

mutual

/-- The node that a phrase stands for. -/
inductive Item : Phrase → Node → Prop where
  | text {content : String} : Item (.text content) (.text content)
  | output {markup : String} {token : Token} : Item (.output markup token) (.output markup token)
  | tag {tag : Tag} : standsAlone tag.name = true → Item (.tag tag) (.tag tag)
  | assign {tag : Tag} {target expression : String} :
      tag.name = "assign" → assignment? tag.markup = some (target, expression) →
      Item (.tag tag) (.assign target expression tag.token)
  | echo {tag : Tag} :
      tag.name = "echo" → tag.markup ≠ "" → Item (.tag tag) (.output tag.markup tag.token)
  | block {opening closing : Tag} {body : List Phrase} {further : List (Clause Phrase)}
      {clauses : List (Clause Node)} {node : Node} :
      Clauses (⟨opening, body⟩ :: further) clauses → BlockRule clauses node →
      closing.name = "end" ++ opening.name → Item (.block (⟨opening, body⟩ :: further) closing) node

/-- The nodes that phrases stand for, one for each. -/
inductive Body : List Phrase → List Node → Prop where
  | nil : Body [] []
  | cons {phrase : Phrase} {phrases : List Phrase} {node : Node} {nodes : List Node} :
      Item phrase node → Body phrases nodes → Body (phrase :: phrases) (node :: nodes)

/-- The clauses with the nodes that their bodies stand for. -/
inductive Clauses : List (Clause Phrase) → List (Clause Node) → Prop where
  | nil : Clauses [] []
  | cons {tag : Tag} {body : List Phrase} {nodes : List Node} {rest : List (Clause Phrase)}
      {clauses : List (Clause Node)} :
      Body body nodes → Clauses rest clauses →
      Clauses (⟨tag, body⟩ :: rest) (⟨tag, nodes⟩ :: clauses)

end

/-- Phrases with certain pieces that stand for certain nodes. -/
def Derives (phrases : List Phrase) (pieces : List Piece) (nodes : List Node) : Prop :=
  piecesOfAll phrases = pieces ∧ Body phrases nodes

/-- Whether pieces consist of phrases. -/
def Derivable (pieces : List Piece) : Prop :=
  ∃ phrases nodes, Derives phrases pieces nodes

/-- Whether pieces are the beginning of a row of phrases. -/
def Viable (pieces : List Piece) : Prop :=
  ∃ rest, Derivable (pieces ++ rest)

/-- All that pieces lack to end with a whole block is the block's closing tag. -/
def InnermostOpen (opening : Tag) (pieces : List Piece) : Prop :=
  ∃ before body further closing node,
    Item (.block (⟨opening, body⟩ :: further) closing) node ∧
      pieces ++ [.tag closing] = before ++ (Phrase.block (⟨opening, body⟩ :: further) closing).pieces

/-- Whether a fault has the right token: the one of the first tag that ends viability, or else the
one of the innermost block that is open. -/
inductive Blames (pieces : List Piece) : Option Token → Prop where
  | tag {before rest : List Piece} {tag : Tag} :
      pieces = before ++ .tag tag :: rest → Viable before → ¬Viable (before ++ [.tag tag]) →
      Blames pieces (some tag.token)
  | unclosed {opening : Tag} :
      Viable pieces → InnermostOpen opening pieces → Blames pieces (some opening.token)

/-! ## What is kept -/

/-- Whether nothing is kept of the tag that opens the last clause of a block. -/
def hidesElse (opening : String) : Bool :=
  ["for", "tablerow", "case"].contains opening

mutual

/-- The pieces of a phrase of which something is kept: no closing tags, no tags of the last clauses
of loops and case distinctions, and nothing that stands before the branches of the latter. -/
def Phrase.kept : Phrase → List Piece
  | .text content => [.text content]
  | .output markup token => [.output markup token]
  | .tag tag => [.tag tag]
  | .block [] _ => []
  | .block (⟨opening, body⟩ :: further) _ =>
    .tag opening :: ((if opening.name = "case" then [] else keptOfAll body) ++
      keptOfClauses (hidesElse opening.name) further)

/-- What is kept of phrases following each other. -/
def keptOfAll : List Phrase → List Piece
  | [] => []
  | phrase :: rest => phrase.kept ++ keptOfAll rest

/-- What is kept of the clauses of a block behind the first. -/
def keptOfClauses (hidden : Bool) : List (Clause Phrase) → List Piece
  | [] => []
  | ⟨tag, body⟩ :: rest =>
    (if hidden && tag.name = "else" then [] else [.tag tag]) ++ keptOfAll body ++
      keptOfClauses hidden rest

end

end MessageTemplate.Template
