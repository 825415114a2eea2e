import MessageTemplate.Template.Node

/-! # Tokens and the source

A token stands in a source where its span says: its text is what the source holds between the two
offsets. The tokens of pieces and of trees are listed in the order in which they are found. -/

namespace MessageTemplate.Template

/-- The offsets of a token are boundaries of characters in a source, and the bytes of the source
between them are its text, which is not empty. -/
structure Token.StandsIn (source : String) (token : Token) : Prop where
  start_lt_stop : token.span.start < token.span.stop
  stop_le : token.span.stop ≤ source.utf8ByteSize
  isValid_start : (String.Pos.Raw.mk token.span.start).IsValid source
  isValid_stop : (String.Pos.Raw.mk token.span.stop).IsValid source
  bytes : source.toByteArray.extract token.span.start token.span.stop = token.text.toByteArray

/-- A token ends before another one begins. -/
def Token.Before (one other : Token) : Prop :=
  one.span.stop ≤ other.span.start

/-- The token of a piece, unless the piece is text. -/
def Piece.token? : Piece → Option Token
  | .text _ => none
  | .output _ token => some token
  | .tag found => some found.token

/-- The tokens of some pieces. -/
def tokensOf (pieces : List Piece) : List Token :=
  pieces.filterMap Piece.token?

mutual

/-- The tokens in a node, in the order of the source. -/
def Node.tokens : Node → List Token
  | .text _ => []
  | .output _ token => [token]
  | .assign _ _ token => [token]
  | .capture _ body token => token :: tokensInAll body
  | .loop _ _ _ _ body otherwise token => token :: (tokensInAll body ++ tokensInAll otherwise)
  | .conditional _ branches => tokensInBranches branches
  | .case _ whens otherwise token => token :: (tokensInWhens whens ++ tokensInAll otherwise)
  | .tag tag => [tag.token]

/-- The tokens in nodes following each other. -/
def tokensInAll : List Node → List Token
  | [] => []
  | node :: rest => node.tokens ++ tokensInAll rest

/-- The tokens in the branches of a conditional. -/
def tokensInBranches : List (Branch Node) → List Token
  | [] => []
  | ⟨_, body, token⟩ :: rest => token :: (tokensInAll body ++ tokensInBranches rest)

/-- The tokens in the branches of a case distinction. -/
def tokensInWhens : List (When Node) → List Token
  | [] => []
  | ⟨_, body, token⟩ :: rest => token :: (tokensInAll body ++ tokensInWhens rest)

end

end MessageTemplate.Template
