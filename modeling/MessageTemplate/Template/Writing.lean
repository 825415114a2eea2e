import MessageTemplate.Template.Node
import MessageTemplate.Template.Pieces

/-! # Writing trees back

A token holds the source text of an output or a tag, so the piece can be read from it again. The
nodes of a tree are written back as the pieces they keep. -/

namespace MessageTemplate.Template

/-- The piece that a token stands for, read from its text again. -/
def Token.piece (token : Token) : Piece :=
  match openingAt? token.text.toList with
  | some (.output, body) => .output (String.ofList (markupOf body.dropLast.dropLast)) token
  | some (.tag, body) => .tag (tagOf (markupOf body.dropLast.dropLast) token)
  | none => .text token.text

mutual

/-- The pieces that a node keeps. -/
def Node.pieces : Node → List Piece
  | .text content => [.text content]
  | .output _ token => [token.piece]
  | .assign _ _ token => [token.piece]
  | .capture _ body token => token.piece :: piecesOfNodes body
  | .loop _ _ _ _ body otherwise token =>
    token.piece :: (piecesOfNodes body ++ piecesOfNodes otherwise)
  | .conditional _ branches => piecesOfBranches branches
  | .case _ whens otherwise token =>
    token.piece :: (piecesOfWhens whens ++ piecesOfNodes otherwise)
  | .tag tag => [tag.token.piece]

/-- The pieces that nodes following each other keep. -/
def piecesOfNodes : List Node → List Piece
  | [] => []
  | node :: rest => node.pieces ++ piecesOfNodes rest

/-- The pieces that the branches of a conditional keep. -/
def piecesOfBranches : List (Branch Node) → List Piece
  | [] => []
  | ⟨_, body, token⟩ :: rest => token.piece :: (piecesOfNodes body ++ piecesOfBranches rest)

/-- The pieces that the branches of a case distinction keep. -/
def piecesOfWhens : List (When Node) → List Piece
  | [] => []
  | ⟨_, body, token⟩ :: rest => token.piece :: (piecesOfNodes body ++ piecesOfWhens rest)

end

end MessageTemplate.Template
