import MessageTemplate.Document.Hints

/-! # Expressions of wrapped attributes

The expression of an attribute is read without the marks of an output around it, whether the attribute
is wrapped or not. If it is not wrapped, what its own text has of such marks at its ends is left out
too. This module tells which texts name the same expression before and after they are wrapped. -/

namespace MessageTemplate.Document

open Text Template

/-- Whether nothing at the ends of a trimmed text passes for the marks of an output, but for its end
behind a bar, which is no part of the base. -/
def ReadsAsIs (text : List Char) : Prop :=
  text.head? ≠ some '-' ∧
    (text.getLast? ≠ some '-' ∧ ¬outputClosing <:+ text ∨ 1 < (splitTopLevel '|' text).length)

instance (text : List Char) : Decidable (ReadsAsIs text) :=
  inferInstanceAs (Decidable (_ ∧ _))

/-- Whether an attribute is there before and after it is wrapped, if it is there at all: only a text of
nothing but blanks comes up. -/
def KeepsPresence (text : String) : Prop :=
  text = "" ∨ text.toList.all isBlank = false

/-- Whether an attribute names the same expression before and after it is wrapped. A text that holds
an output already is not wrapped again. -/
def KeepsExpression (text : String) : Prop :=
  text = "" ∨ occurs outputOpening text.toList = true ∨
    text.toList.all isBlank = false ∧ ReadsAsIs (trim text.toList)

instance (text : String) : Decidable (KeepsExpression text) :=
  inferInstanceAs (Decidable (_ ∨ _))

end MessageTemplate.Document
