import MessageTemplate.Keyed

/-! # JSON values

Objects hold their members in key order. A number is either an integer of at most 64 bits or a
double. -/

namespace MessageTemplate

/-- A JSON number. Integers that fit a signed or an unsigned 64-bit word are exact. -/
inductive Number where
  | whole (value : Int)
  | real (value : Float)
  deriving Inhabited

/-- A JSON value. -/
inductive Json where
  | null
  | bool (value : Bool)
  | number (value : Number)
  | string (text : String)
  | array (items : List Json)
  | object (members : List (String × Json))
  deriving Inhabited

/-- The nearest double. -/
def Number.toFloat : Number → Float
  | .whole value => Float.ofInt value
  | .real value => value

/-- The value as a count, if it is one. -/
def Number.count? : Number → Option Nat
  | .whole value => if 0 ≤ value then some value.toNat else none
  | .real _ => none

namespace Json

/-- A natural number as a JSON value. -/
def ofNat (value : Nat) : Json :=
  .number (.whole value)

/-- The text of a string value. -/
def string? : Json → Option String
  | .string text => some text
  | _ => none

/-- The items of an array. -/
def items? : Json → Option (List Json)
  | .array items => some items
  | _ => none

/-- The members of an object. -/
def members? : Json → Option (Keyed Json)
  | .object members => some members
  | _ => none

/-- The member of an object under a key. -/
def member? (key : String) : Json → Option Json
  | .object members => Keyed.get? key members
  | _ => none

/-- Whether the value is an object. -/
def isObject : Json → Bool
  | .object _ => true
  | _ => false

mutual

/-- Puts the members of every object in key order; of members with one key the last one
counts. -/
def ordered : Json → Json
  | .array items => .array (orderedItems items)
  | .object members => .object (Keyed.ofList (orderedMembers members))
  | value => value

/-- `ordered` on the items of an array. -/
def orderedItems : List Json → List Json
  | [] => []
  | item :: rest => item.ordered :: orderedItems rest

/-- `ordered` on the members of an object, whose own order stays. -/
def orderedMembers : List (String × Json) → List (String × Json)
  | [] => []
  | (key, value) :: rest => (key, value.ordered) :: orderedMembers rest

end

mutual

/-- The strings and the keys in a value. -/
def texts : Json → List String
  | .string text => [text]
  | .array items => textsOfItems items
  | .object members => textsOfMembers members
  | _ => []

/-- The strings and the keys in the items of an array. -/
def textsOfItems : List Json → List String
  | [] => []
  | item :: rest => item.texts ++ textsOfItems rest

/-- The keys of an object, and the strings and the keys in its members. -/
def textsOfMembers : List (String × Json) → List String
  | [] => []
  | (key, value) :: rest => key :: value.texts ++ textsOfMembers rest

end

end Json

end MessageTemplate
