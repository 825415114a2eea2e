import MessageTemplate.Example.Builder

/-! # The layout of example data

Where example data holds objects and arrays, and which values it ends in, told by the paths that it
is asked for and by the names that lead there. -/

namespace MessageTemplate

namespace Json

/-- The number of items of an array. -/
def length? (value : Json) : Option Nat :=
  value.items?.map List.length

end Json

namespace Path

/-- The positions in a path, each with the names before it, given the names that lead to the rest of
the path. -/
def positionsFrom (names : List String) : List Segment → List (List String × Nat)
  | [] => []
  | .key name :: rest => positionsFrom (names ++ [name]) rest
  | .index position :: rest => (names, position) :: positionsFrom names rest

/-- Whether no position in a path stands right behind another one. -/
def isSpaced : List Segment → Bool
  | .index _ :: .index _ :: _ => false
  | _ :: rest => isSpaced rest
  | [] => true

end Path

namespace Example.Builder

variable (builder : Builder)

/-- Whether an object stands behind some names for the sake of digest steps: on the way to their
events, as the payload of an event, or on the way from there to what is read from it. -/
def isInDigest (asked names : List String) : Bool :=
  ((builder.candidates asked).filter isDigest).any fun path =>
    let events := (Path.keys? (eventsOf path)).getD []
    let keys := (Path.keys? path).getD []
    names ≠ events &&
      (names.isPrefixOf (events ++ ["payload"]) || names.isPrefixOf keys && names ≠ keys)

/-- Whether example data without declared collections has an element at a position behind some
names. Either these are the events of a digest step, or a path that is no digest path has such a
position there, or a larger one, and no object stands there for the sake of digest steps. -/
def hasElement (asked names : List String) (position : Nat) : Bool :=
  let (digest, others) := (builder.candidates asked).partition isDigest
  digest.any (fun path => Path.keys? (eventsOf path) = some names) ||
    !builder.isInDigest asked names && others.any fun path =>
      (Path.positionsFrom [] ((Path.split? path).getD [])).any fun (before, other) =>
        before = names && position ≤ other

/-- What stands for a value, told by the names that lead to it. -/
def valueAt (names : List String) : Json :=
  match names with
  | ["steps", _, field] =>
    if field = "seen" || field = "read" then .bool false
    else if field = "lastSeenDate" || field = "lastReadDate" then .string builder.now
    else .string field
  | _ => .string (names.getLast?.getD "")

/-- Whether a flag has some names and is seen as one. Paths into the payload of events are not,
unless another path has these names as well. -/
def isFlagged (paths flags names : List String) : Bool :=
  flags.any (fun flag => Path.keys? flag = some names) &&
    (paths ++ flags).any fun path =>
      Path.keys? path = some names && !isDigest (Path.normalize path)

end Example.Builder

end MessageTemplate
