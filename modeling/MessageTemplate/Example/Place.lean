import MessageTemplate.Json.Basic

/-! # Writing into example data

A write goes to the end of a chain of property names and is made in every element of the arrays
on its way. `place` makes way for itself, `fill` only adds what is missing. -/

namespace MessageTemplate.Example

mutual

/-- Applies a change to a value that is no array, or else to all elements, and to theirs. -/
def throughArrays (change : Json → Json) : Json → Json
  | .array items => .array (throughItems change items)
  | .null => change .null
  | .bool value => change (.bool value)
  | .number value => change (.number value)
  | .string text => change (.string text)
  | .object members => change (.object members)

/-- `throughArrays` on every item of a list. -/
def throughItems (change : Json → Json) : List Json → List Json
  | [] => []
  | item :: rest => throughArrays change item :: throughItems change rest

end

/-- Whether a value holds other values. -/
def isContainer : Json → Bool
  | .array _ => true
  | .object _ => true
  | _ => false

/-- Puts a value under a key. Anything but an object gives way to one, and an array or an object
that stands under the key stays. -/
def putLeaf (key : String) (value node : Json) : Json :=
  let members := node.members?.getD []
  if (Keyed.get? key members).any isContainer then .object members
  else .object (Keyed.insert key value members)

/-- Changes the value under a key, which is an empty object unless there is one already. Anything
but an object gives way to one. -/
def putChild (key : String) (change : Json → Json) (node : Json) : Json :=
  let members := node.members?.getD []
  .object (Keyed.insert key (change ((Keyed.get? key members).getD (.object []))) members)

/-- Writes a value at the end of a chain of keys. Values on the way that are neither objects nor
arrays give way; an array or an object at the end stays. -/
def place (value : Json) : List String → Json → Json
  | [], node => node
  | [key], node => throughArrays (putLeaf key value) node
  | key :: rest, node => throughArrays (putChild key (place value rest)) node

/-- Puts a value under a key of an object that has no such key. -/
def fillLeaf (key : String) (value : Json) : Json → Json
  | .object members => .object (Keyed.insertNew key value members)
  | node => node

/-- Changes the value under a key of an object, which is an empty object unless there is one
already. -/
def fillChild (key : String) (change : Json → Json) : Json → Json
  | .object members =>
    .object (Keyed.insert key (change ((Keyed.get? key members).getD (.object []))) members)
  | node => node

/-- Adds a value at the end of a chain of keys. What is there already stays, and a value on the
way that is neither an object nor an array ends the write. -/
def fill (value : Json) : List String → Json → Json
  | [], node => node
  | [key], node => throughArrays (fillLeaf key value) node
  | key :: rest, node => throughArrays (fillChild key (fill value rest)) node

end MessageTemplate.Example
