import MessageTemplate.Template.Pieces
import Mathlib.Data.List.Chain

/-! # The layout of a template

A template is laid out in stretches: text, outputs and tags, tags that are remarks, and blocks whose
content is not read. Each stretch has its source and the pieces that it becomes at its position.
Only remarks, the tags around the content of raw blocks, and comment blocks become no piece. -/

namespace MessageTemplate.Template

open Text

/-- An output or a tag around an inside. -/
def Delimiter.enclose (delimiter : Delimiter) (inner : List Char) : List Char :=
  delimiter.opening ++ inner ++ delimiter.closing

/-- The blocks whose content is not read. -/
inductive Shield where
  | raw
  | comment
  deriving DecidableEq, Repr

namespace Shield

/-- The name of the tag that opens a block. -/
def name : Shield → String
  | raw => "raw"
  | comment => "comment"

/-- The name of the tag that closes a block. -/
def endName (shield : Shield) : List Char :=
  "end".toList ++ shield.name.toList

end Shield

/-- A stretch of a template. Outputs and tags are told by their insides. -/
inductive Stretch where
  | text (content : List Char)
  | output (inner : List Char)
  | tag (inner : List Char)
  | remark (inner : List Char)
  | shielded (shield : Shield) (inner content ending : List Char)
  deriving DecidableEq, Repr

/-- A token with some text at a position. -/
def tokenAt (position : Nat) (text : List Char) : Token :=
  ⟨String.ofList text, ⟨position, position + width text⟩⟩

/-- The name of the tag with some inside. -/
def tagName (inner : List Char) : String :=
  String.ofList ((markupOf inner).takeWhile fun c => !isBlank c)

namespace Stretch

/-- The text of a stretch in the template. -/
def source : Stretch → List Char
  | text content => content
  | output inner => Delimiter.output.enclose inner
  | tag inner => Delimiter.tag.enclose inner
  | remark inner => Delimiter.tag.enclose inner
  | shielded _ inner content ending => Delimiter.tag.enclose inner ++ content ++ ending

/-- The pieces that a stretch becomes at a position. -/
def pieces (position : Nat) : Stretch → List Piece
  | text content => [.text (String.ofList content)]
  | output inner =>
    [.output (String.ofList (markupOf inner)) (tokenAt position (Delimiter.output.enclose inner))]
  | tag inner => [.tag (tagOf (markupOf inner) (tokenAt position (Delimiter.tag.enclose inner)))]
  | remark _ => []
  | shielded .raw _ content _ => [.text (String.ofList content)]
  | shielded .comment _ _ _ => []

end Stretch

/-- The text of a template that is laid out in some stretches. -/
def sourceOf (stretches : List Stretch) : List Char :=
  stretches.flatMap Stretch.source

/-- The pieces that stretches become from a position on. -/
def piecesOfStretches (position : Nat) : List Stretch → List Piece
  | [] => []
  | stretch :: rest =>
    stretch.pieces position ++ piecesOfStretches (position + width stretch.source) rest

/-- Nothing opens in a text. -/
def Quiet (text : List Char) : Prop :=
  ∀ delimiter : Delimiter, ¬ occurs delimiter.opening text

/-- The closing delimiter behind an inside is the first one. -/
def Delimiter.ClosesFirst (delimiter : Delimiter) (inner : List Char) : Prop :=
  ¬ occurs delimiter.closing (inner ++ delimiter.closing.dropLast)

/-- An end tag with a name. Blanks may stand around the name, and a hyphen at either end. -/
inductive IsEndTag (name : List Char) : List Char → Prop where
  | intro {first lead trail last : List Char} :
      first ∈ [[], ['-']] → lead.all isBlank → trail.all isBlank → last ∈ [[], ['-']] →
      IsEndTag name (Delimiter.tag.enclose (first ++ (lead ++ (name ++ (trail ++ last)))))

/-- An end tag closes the content before it: no other one begins earlier. -/
structure Ends (name content ending : List Char) : Prop where
  isEndTag : IsEndTag name ending
  first : ∀ before tag after, IsEndTag name tag →
    content ++ ending = before ++ tag ++ after → content.length ≤ before.length

namespace Stretch

/-- A stretch is what it is said to be: text opens nothing, outputs and tags end where they are
first closed, the name of a tag tells what it is, and a block ends at its first end tag. -/
def WellFormed : Stretch → Prop
  | text content => content ≠ [] ∧ Quiet content
  | output inner => Delimiter.output.ClosesFirst inner
  | tag inner => Delimiter.tag.ClosesFirst inner ∧ tagName inner ≠ "" ∧
      (tagName inner).toList.head? ≠ some '#' ∧ ∀ shield : Shield, tagName inner ≠ shield.name
  | remark inner => Delimiter.tag.ClosesFirst inner ∧ (tagName inner).toList.head? = some '#'
  | shielded shield inner content ending => Delimiter.tag.ClosesFirst inner ∧
      tagName inner = shield.name ∧ Ends shield.endName content ending

/-- A stretch that starts with an opening delimiter. -/
def IsMarkup : Stretch → Prop
  | text _ => False
  | _ => True

/-- Behind text stands no other text, and the text does not end with a brace that opens something
with what stands there. -/
def Precedes : Stretch → Stretch → Prop
  | text content, next => next.IsMarkup ∧ content.getLast? ≠ some '\x7b'
  | _, _ => True

end Stretch

/-- Stretches lay out a template. -/
structure IsLayout (stretches : List Stretch) : Prop where
  wellFormed : ∀ stretch ∈ stretches, stretch.WellFormed
  chain : stretches.IsChain Stretch.Precedes

end MessageTemplate.Template
