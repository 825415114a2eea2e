import MessageTemplate.Template.Markup
import MessageTemplate.Template.Reference

/-! # The places of references

Where a reference may stand in the markup of outputs and tags. A place is given by what stands before
the reference and what stands behind it. The predicates of this module say of these two texts only what
sets the reference off from them; whatever else they hold is arbitrary. -/

namespace MessageTemplate.Template

open Text

/-- A text of blanks. -/
def IsGap (text : List Char) : Prop :=
  ∀ c ∈ text, isBlank c = true

instance (text : List Char) : Decidable (IsGap text) :=
  decidable_of_iff (text.all isBlank = true) List.all_eq_true

/-- A text that goes on, after blanks, with one of some marks if it goes on at all. -/
def StopsAt (marks tail : List Char) : Prop :=
  ∀ c ∈ (trimStart tail).head?, c ∈ marks

/-- A text with nothing open at its end. -/
def IsClosed (text : List Char) : Prop :=
  text.foldl Scan.next .start = .start

/-- A text that does not reach behind the bar that a filter follows. -/
def IsWithinFilter (text : List Char) : Prop :=
  splitTopLevel '|' text = [text]

/-- What an argument of a filter starts with: nothing, or its name. -/
inductive StartsArgument : List Char → Prop where
  | positional {gap : List Char} : IsGap gap → StartsArgument gap
  | keyword {key gap : List Char} :
      isName (trim key) = true → IsGap gap → StartsArgument (key ++ ':' :: gap)

/-- What stands between the colon of a filter and the value of one of its arguments. -/
inductive LeadsArgument : List Char → Prop where
  | first {lead : List Char} : StartsArgument lead → LeadsArgument lead
  | further {earlier lead : List Char} :
      IsClosed earlier → IsWithinFilter earlier → StartsArgument lead →
      LeadsArgument (earlier ++ ',' :: lead)

/-- The word between two values. -/
def orText : List Char :=
  " or ".toList

/-- What stands before a value of a branch, behind the last comma. -/
inductive StartsValue : List Char → Prop where
  | first {gap : List Char} : IsGap gap → StartsValue gap
  | or {earlier gap : List Char} : Sealed ',' 0 earlier → ¬orText.dropLast <:+ earlier →
      IsGap gap → StartsValue (earlier ++ orText ++ gap)

/-- What stands behind a value of a branch. -/
inductive FollowsValue : List Char → Prop where
  | comma {tail : List Char} : StopsAt [','] tail → FollowsValue tail
  | or {gap tail : List Char} : IsGap gap → FollowsValue (gap ++ orText ++ tail)

/-- The collection of a loop as it is written. -/
inductive IsCollection : List Char → Prop where
  | word {c : Char} {rest : List Char} : c ≠ '(' → (∀ d ∈ c :: rest, isBlank d = false) →
      IsCollection (c :: rest)
  | range {inner : List Char} : ')' ∉ inner → IsCollection ('(' :: (inner ++ [')']))

/-- What stands here in the markup is the base of an output or an echo, and filters behind it are
applied to it. -/
def IsBase (name : Option String) (lead : List Char) : Prop :=
  (name = none ∨ name = some "echo") ∧ IsGap lead

instance (name : Option String) (lead : List Char) : Decidable (IsBase name lead) :=
  inferInstanceAs (Decidable (_ ∧ _))

end MessageTemplate.Template
