import MessageTemplate.Decimal.Layout
import MessageTemplate.Decimal.Reading
import MessageTemplate.Json.Basic
import MessageTemplate.Text.Basic
import MessageTemplate.Text.Whole

/-! # Values of the template engine

Templates compute with JSON values, except that integers have 64 bits and a sign. Two more values
stand for emptiness and blankness; a value equals one of these if it is empty or blank. -/

namespace MessageTemplate.Engine

open Text

/-- A value. -/
inductive Value where
  | nil
  | bool (value : Bool)
  | integer (value : Int)
  | float (value : Float)
  | string (text : String)
  | array (items : List Value)
  | object (members : List (String × Value))
  | empty
  | blank
  deriving Inhabited

namespace Value

/-- Whether an integer has a value. -/
def fitsInteger (value : Int) : Bool := minInteger ≤ value && value ≤ maxInteger

mutual

/-- The value of a JSON value. Integers that are too large have none. -/
def ofJson? : Json → Option Value
  | .null => some nil
  | .bool value => some (bool value)
  | .number (.whole value) => if fitsInteger value then some (integer value) else none
  | .number (.real value) => some (float value)
  | .string text => some (string text)
  | .array items => (ofItems? items).map array
  | .object members => (ofMembers? members).map object

/-- The values of some JSON values. -/
def ofItems? : List Json → Option (List Value)
  | [] => some []
  | item :: rest =>
    match ofJson? item, ofItems? rest with
    | some value, some others => some (value :: others)
    | _, _ => none

/-- The values of the members of an object. -/
def ofMembers? : List (String × Json) → Option (List (String × Value))
  | [] => some []
  | (key, member) :: rest =>
    match ofJson? member, ofMembers? rest with
    | some value, some others => some ((key, value) :: others)
    | _, _ => none

end

mutual

/-- The JSON value of a value. Emptiness and blankness become their names, and a double that is
not finite becomes null. -/
def toJson : Value → Json
  | nil => .null
  | bool value => .bool value
  | integer value => .number (.whole value)
  | float value => if value.isFinite then .number (.real value) else .null
  | string text => .string text
  | array items => .array (toItems items)
  | object members => .object (toMembers members)
  | empty => .string "Empty"
  | blank => .string "Blank"

/-- The JSON values of some values. -/
def toItems : List Value → List Json
  | [] => []
  | item :: rest => item.toJson :: toItems rest

/-- The members of an object as JSON. -/
def toMembers : List (String × Value) → List (String × Json)
  | [] => []
  | (key, member) :: rest => (key, member.toJson) :: toMembers rest

end

mutual

/-- The text that a value is printed as. The parts of arrays and objects follow each other. -/
def text : Value → String
  | nil => ""
  | bool value => if value then "true" else "false"
  | integer value => toString value
  | float value => Decimal.plain.write value
  | string text => text
  | array items => textOfItems items
  | object members => textOfMembers members
  | empty => ""
  | blank => ""

/-- The texts of some values. -/
def textOfItems : List Value → String
  | [] => ""
  | item :: rest => item.text ++ textOfItems rest

/-- The texts of the members of an object, keys included. -/
def textOfMembers : List (String × Value) → String
  | [] => ""
  | (key, member) :: rest => key ++ member.text ++ textOfMembers rest

end

/-! ## Kinds and conversions -/

/-- Whether a value is a truth value, a number or a text. -/
def isScalar : Value → Bool
  | bool _ => true
  | integer _ => true
  | float _ => true
  | string _ => true
  | _ => false

/-- The integer that a value is or that a text is written for. -/
def integer? : Value → Option Int
  | integer value => some value
  | string text => Text.integer? text.toList
  | _ => none

/-- The number that a value is or that a text is written for, as a double. -/
def float? : Value → Option Float
  | integer value => some (Float.ofInt value)
  | float value => some value
  | string text => Decimal.float? text.toList
  | _ => none

/-- Whether a value counts as true. All do but the false value and nothing. -/
def isTrue : Value → Bool
  | nil => false
  | bool value => value
  | empty => false
  | blank => false
  | _ => true

/-- Whether a fallback takes the place of a value. -/
def isMissing : Value → Bool
  | nil => true
  | bool value => !value
  | string text => text = ""
  | array items => items.isEmpty
  | object members => members.isEmpty
  | empty => true
  | blank => true
  | _ => false

/-- Whether a value equals emptiness. -/
def isEmpty : Value → Bool
  | nil => true
  | string text => text = ""
  | array items => items.isEmpty
  | object members => members.isEmpty
  | empty => true
  | blank => true
  | _ => false

/-- Whether a value equals blankness. -/
def isBlank : Value → Bool
  | nil => true
  | bool value => !value
  | string text => text.toList.all Text.isBlank
  | array items => items.isEmpty
  | object members => members.isEmpty
  | empty => true
  | blank => true
  | _ => false

/-! ## Equality and order -/

/-- Whether two scalars are equal. A truth value equals any other scalar if it is true. -/
def scalarsEqual : Value → Value → Bool
  | integer left, integer right => left = right
  | integer left, float right => Float.ofInt left == right
  | float left, integer right => left == Float.ofInt right
  | float left, float right => left == right
  | bool left, bool right => left = right
  | string left, string right => left = right
  | bool left, _ => left
  | _, bool right => right
  | _, _ => false

/-- Whether a scalar equals a value that is none: nothing, if the scalar is false; a collection, if
it is true. -/
def scalarEquals (scalar other : Value) : Bool :=
  match scalar, other with
  | bool value, nil => !value
  | bool value, _ => value
  | _, _ => false

/-- Whether two values are equal that are not both arrays or both objects. -/
def flatEquals (left right : Value) : Bool :=
  match left, right with
  | nil, nil => true
  | empty, _ => right.isEmpty
  | blank, _ => right.isBlank
  | _, empty => left.isEmpty
  | _, blank => left.isBlank
  | _, _ =>
    if left.isScalar then
      if right.isScalar then scalarsEqual left right else scalarEquals left right
    else right.isScalar && scalarEquals right left

mutual

/-- Whether two values are equal. -/
def equals : Value → Value → Bool
  | array left, array right => equalItems left right
  | object left, object right => left.length = right.length && equalMembers left right
  | left, right => flatEquals left right

/-- Whether two lists have equal items. -/
def equalItems : List Value → List Value → Bool
  | [], [] => true
  | left :: others, right :: rest => left.equals right && equalItems others rest
  | _, _ => false

/-- Whether members have equals under their keys. -/
def equalMembers : List (String × Value) → List (String × Value) → Bool
  | [], _ => true
  | (key, left) :: others, members =>
    (match Keyed.get? key members with
      | some right => left.equals right
      | none => false) && equalMembers others members

end

/-- The order of two doubles, if they have one. -/
def compareFloats? (left right : Float) : Option Ordering :=
  if left < right then some .lt
  else if left == right then some .eq
  else if right < left then some .gt
  else none

/-- The order of two scalars, if they are of one kind. -/
def compareScalars? : Value → Value → Option Ordering
  | integer left, integer right => some (compare left right)
  | integer left, float right => compareFloats? (Float.ofInt left) right
  | float left, integer right => compareFloats? left (Float.ofInt right)
  | float left, float right => compareFloats? left right
  | bool left, bool right => some (compare left.toNat right.toNat)
  | string left, string right => some (compare left right)
  | _, _ => none

mutual

/-- The order of two values, if they have one. Arrays are compared item by item. -/
def compare? : Value → Value → Option Ordering
  | array left, array right => compareItems? left right
  | left, right => compareScalars? left right

/-- The order of two lists. -/
def compareItems? : List Value → List Value → Option Ordering
  | [], [] => some .eq
  | [], _ :: _ => some .lt
  | _ :: _, [] => some .gt
  | left :: others, right :: rest =>
    match left.compare? right with
    | some .eq => compareItems? others rest
    | found => found

end

/-! ## Parts -/

/-- The item at a position; negative positions count from the end. -/
def itemAt? (items : List Value) (position : Int) : Option Value :=
  let position := if position < 0 then position + items.length else position
  if position < 0 then none else items[position.toNat]?

/-- The part of a value that a key leads to. Arrays have positions, ends and a size; objects have
their members and a size; scalars have the size of their text in bytes. -/
def part? (value key : Value) : Option Value :=
  match value with
  | array items =>
    match key.integer? with
    | some position => itemAt? items position
    | none =>
      match key.text with
      | "first" => items.head?
      | "last" => items.getLast?
      | "size" => some (integer items.length)
      | _ => none
  | object members =>
    match Keyed.get? key.text members with
    | some member => some member
    | none => if key.text = "size" then some (integer members.length) else none
  | value =>
    if value.isScalar && key.text = "size" then some (integer value.text.utf8ByteSize) else none

/-- The part that a chain of keys leads to. -/
def parts? (value : Value) (keys : List Value) : Option Value :=
  keys.foldlM part? value

end Value

end MessageTemplate.Engine
