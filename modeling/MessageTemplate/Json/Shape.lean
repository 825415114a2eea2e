import MessageTemplate.Json.Basic
import MessageTemplate.Text.Whole

/-! # Shapes of values

What stands inside of a value, and what one value has of another one. Two laws of example data are
told by them: how its arrays look, at any depth, and what stays when something is added. Two more
shapes and the depth of a value say which values are read back from their text. -/

namespace MessageTemplate

/-- An integer that fits a signed or an unsigned 64-bit word. -/
def Number.IsExact : Number → Prop
  | .whole value => Text.minInteger ≤ value ∧ value ≤ Text.maxCount
  | .real _ => False

namespace Json

/-- A value stands in another one, at any depth. -/
inductive Within (inner : Json) : Json → Prop where
  | self : Within inner inner
  | item {items : List Json} {item : Json} :
      item ∈ items → Within inner item → Within inner (.array items)
  | member {members : List (String × Json)} {name : String} {value : Json} :
      (name, value) ∈ members → Within inner value → Within inner (.object members)

/-- Every array in a value, at any depth, has at most so many items, and all of them are equal. -/
def Uniform (limit : Nat) (value : Json) : Prop :=
  ∀ items, Within (.array items) value →
    items.length ≤ limit ∧ ∀ item ∈ items, ∀ other ∈ items, item = other

/-- One value has all that another one has, each at its place: the same scalar, an array of as many
items, or an object with at least its members, and the same holds of the items and of the
members. -/
inductive Extends : Json → Json → Prop where
  | scalar {value : Json} : value.items? = none → value.members? = none → Extends value value
  | array {items others : List Json} : items.length = others.length →
      (∀ (position : Nat) item other, items[position]? = some item → others[position]? = some other →
        Extends item other) →
      Extends (.array items) (.array others)
  | object {members others : List (String × Json)} :
      (∀ name, Keyed.has name members → Keyed.has name others) →
      (∀ name value next, Keyed.get? name members = some value →
        Keyed.get? name others = some next → Extends value next) →
      Extends (.object members) (.object others)

/-- What holds of a value and of all that stands in it. -/
def Throughout (good : Json → Prop) (value : Json) : Prop :=
  ∀ inner, Within inner value → good inner

/-- The members of every object stand in key order, and no key stands twice. -/
def InOrder (value : Json) : Prop :=
  Throughout (fun inner => ∀ members ∈ inner.members?, Keyed.Sorted members) value

/-- Every number is an integer of 64 bits. -/
def HasExactNumbers (value : Json) : Prop :=
  Throughout (fun inner => ∀ number, inner = .number number → number.IsExact) value

mutual

/-- How deep arrays and objects nest. -/
def nesting : Json → Nat
  | .array items => nestingOfItems items + 1
  | .object members => nestingOfMembers members + 1
  | _ => 0

/-- The greatest nesting of the items of an array. -/
def nestingOfItems : List Json → Nat
  | [] => 0
  | item :: rest => max item.nesting (nestingOfItems rest)

/-- The greatest nesting of the members of an object. -/
def nestingOfMembers : List (String × Json) → Nat
  | [] => 0
  | (_, value) :: rest => max value.nesting (nestingOfMembers rest)

end

end Json

end MessageTemplate
