import MessageTemplate.Template.Node

/-! # Templates further on in a source

A template that stands behind another text has the same pieces and nodes, and tokens that say where
it stands now. Where the other text is a template too, the two have their pieces and nodes in a row,
and a text at the end of the one is continued by a text at the start of the other. -/

namespace MessageTemplate.Template

/-- The same range, some bytes further on. -/
def Span.shift (distance : Nat) (span : Span) : Span :=
  ⟨distance + span.start, distance + span.stop⟩

/-- The same token, some bytes further on. -/
def Token.shift (distance : Nat) (token : Token) : Token :=
  { token with span := token.span.shift distance }

section Tokens

variable (change : Token → Token)

/-- A tag with a changed token. -/
def Tag.mapToken (tag : Tag) : Tag :=
  { tag with token := change tag.token }

/-- A piece with a changed token, unless it is text. -/
def Piece.mapToken : Piece → Piece
  | .text content => .text content
  | .output markup token => .output markup (change token)
  | .tag found => .tag (found.mapToken change)

/-- A fault with a changed token, if there is one to blame. -/
def Fault.mapToken (fault : Fault) : Fault :=
  { fault with token := fault.token.map change }

mutual

/-- A node with all of its tokens changed. -/
def Node.mapTokens : Node → Node
  | .text content => .text content
  | .output expression token => .output expression (change token)
  | .assign target expression token => .assign target expression (change token)
  | .capture target body token => .capture target (mapTokensInAll body) (change token)
  | .loop kind iterator collection params body otherwise token =>
    .loop kind iterator collection params (mapTokensInAll body) (mapTokensInAll otherwise)
      (change token)
  | .conditional kind branches => .conditional kind (mapTokensInBranches branches)
  | .case subject whens otherwise token =>
    .case subject (mapTokensInWhens whens) (mapTokensInAll otherwise) (change token)
  | .tag found => .tag (found.mapToken change)

/-- Nodes following each other, with all of their tokens changed. -/
def mapTokensInAll : List Node → List Node
  | [] => []
  | node :: rest => node.mapTokens :: mapTokensInAll rest

/-- The branches of a conditional with all of their tokens changed. -/
def mapTokensInBranches : List (Branch Node) → List (Branch Node)
  | [] => []
  | ⟨condition, body, token⟩ :: rest =>
    ⟨condition, mapTokensInAll body, change token⟩ :: mapTokensInBranches rest

/-- The branches of a case distinction with all of their tokens changed. -/
def mapTokensInWhens : List (When Node) → List (When Node)
  | [] => []
  | ⟨values, body, token⟩ :: rest =>
    ⟨values, mapTokensInAll body, change token⟩ :: mapTokensInWhens rest

end

end Tokens

/-- The items of two texts in a row. They follow each other as they are, or the first ones end and
the others start with a text, and these two are one. -/
inductive Seam {α : Type} (text : String → α) : List α → List α → List α → Prop where
  | apart {first others : List α} : Seam text first others (first ++ others)
  | joined {first others : List α} {left right : String} :
      Seam text (first ++ [text left]) (text right :: others)
        (first ++ text (left ++ right) :: others)

end MessageTemplate.Template
