import MessageTemplate.Example.Place
import MessageTemplate.Path
import MessageTemplate.StepPath

/-! # Example data for a message

From the paths that a template reads, example data is put together that has a value for each of
them. Collections get a number of equal elements; the events of a digest step share one payload;
every other path ends in a stand-in for its value. -/

namespace MessageTemplate.Example

/-- A path that is a collection, and the number of its elements. -/
structure DeclaredArray where
  path : String
  iterations : Nat
  deriving DecidableEq, Repr

/-- The settings of example data: the one name that needs no namespace, the number of events of
a digest step, the largest number of elements of any collection, and the text that stands for
the current time. -/
structure Builder where
  contentPlaceholder : String
  digestEvents : Nat
  maxIterations : Nat
  now : String
  deriving DecidableEq, Repr

/-- The settings used without a configuration. -/
def Builder.standard (now : String) : Builder := ⟨"content", 3, 50, now⟩

/-- The elements of a list without repetitions, each at its first place. -/
def distinct (texts : List String) : List String :=
  texts.foldl (fun seen text => if seen.contains text then seen else seen ++ [text]) []

/-- Sorts by the depth of a path, and keeps the order of equal depths. -/
def sortByDepth {α : Type} (path : α → String) (items : List α) : List α :=
  items.mergeSort fun left right => Path.depth (path left) ≤ Path.depth (path right)

/-- The collections that the positions of a path imply, with enough elements for each position,
given the keys that lead to the rest of the path. -/
def impliedBy (keys : List String) : List Segment → List DeclaredArray
  | [] => []
  | .key name :: rest => impliedBy (keys ++ [name]) rest
  | .index position :: rest =>
    ⟨".".intercalate keys, position + 1⟩ :: impliedBy keys rest

/-- Adds a collection to a list with one entry a path; the larger number of elements counts. -/
def widen (arrays : List DeclaredArray) (array : DeclaredArray) : List DeclaredArray :=
  if arrays.any fun other => other.path = array.path then
    arrays.map fun other =>
      if other.path = array.path then
        { other with iterations := max other.iterations array.iterations }
      else other
  else arrays ++ [array]

/-- Whether a path belongs to the events of a digest step. -/
def isDigest (path : String) : Bool :=
  (StepPath.eventPayload? path).isSome || StepPath.isEvents path

/-- The events that a digest path belongs to. -/
def eventsOf (path : String) : String :=
  match StepPath.eventPayload? path with
  | some (events, _) => events
  | none => path

/-- Adds what a digest path reads from the payload of an event. -/
def addToPayload (payload : Json) (path : String) : Json :=
  match StepPath.eventPayload? path with
  | some (_, rest) =>
    match Path.keys? (Path.stripIndices rest) with
    | some keys => place (.string (keys.getLast?.getD "")) keys payload
    | none => payload
  | none => payload

/-- The payload of the events of a digest step: all that is read from it. -/
def payloadOfEvents (digestPaths : List String) (events : String) : Json :=
  (digestPaths.filter fun path => eventsOf path = events).foldl addToPayload (.object [])

/-- Writes a value at a path, if the path has keys. -/
def placeAt (path : String) (value : Json) (root : Json) : Json :=
  match Path.keys? path with
  | some keys => place value keys root
  | none => root

/-- An array of equal elements. -/
def repeated (count : Nat) (element : Json) : Json :=
  .array (List.replicate count element)

namespace Builder

variable (builder : Builder)

/-- Whether a path has a namespace, or needs none. -/
def isNamespaced (path : String) : Bool :=
  path.toList.contains '.' || path = builder.contentPlaceholder

/-- The paths that example data is made for: those with a namespace, in their usual form and
without repetitions. -/
def candidates (paths : List String) : List String :=
  (distinct (paths.map Path.normalize)).filter fun path =>
    path ≠ "" && builder.isNamespaced path

/-- The number of elements of a collection of events. -/
def eventCount (arrays : List DeclaredArray) (events : String) : Nat :=
  let declared := arrays.find? fun array => Path.stripIndices array.path = events
  min ((declared.map DeclaredArray.iterations).getD builder.digestEvents) builder.maxIterations

/-- The events of a digest step. All of them have the same payload. -/
def exampleEvents (arrays : List DeclaredArray) (digestPaths : List String) (events : String) :
    Json :=
  repeated (builder.eventCount arrays events)
    (.object [("payload", payloadOfEvents digestPaths events)])

/-- Writes the events of all digest steps. -/
def placeDigest (arrays : List DeclaredArray) (digestPaths : List String) (root : Json) : Json :=
  (distinct (digestPaths.map eventsOf)).foldl
    (fun root events => placeAt events (builder.exampleEvents arrays digestPaths events) root) root

/-- The declared collections. -/
def declared (arrays : List DeclaredArray) : List DeclaredArray :=
  arrays.map fun array =>
    ⟨Path.stripIndices array.path, min array.iterations builder.maxIterations⟩

/-- The collections implied by positions in paths, unless they are declared. -/
def implied (declared : List DeclaredArray) (paths : List String) : List DeclaredArray :=
  let found := paths.flatMap fun path => impliedBy [] ((Path.split? path).getD [])
  let undeclared := found.filter fun array => !declared.any fun other => other.path = array.path
  (undeclared.map fun array =>
    { array with iterations := min array.iterations builder.maxIterations }).foldl widen []

/-- Writes the collections, those near the root first. -/
def placeArrays (arrays : List DeclaredArray) (paths : List String) (root : Json) : Json :=
  let declared := builder.declared arrays
  (sortByDepth DeclaredArray.path (declared ++ builder.implied declared paths)).foldl
    (fun root array => placeAt array.path (repeated array.iterations (.object [])) root) root

/-- What stands for the value of a path. -/
def standIn (path : String) (keys : List String) : Json :=
  if StepPath.isStatus path then .bool false
  else if StepPath.isDate path then .string builder.now
  else .string (keys.getLast?.getD "")

/-- The paths that no other path leads on from, those near the root first. -/
def leaves (paths : List String) : List String :=
  let paths := distinct (paths.map Path.stripIndices)
  sortByDepth id (paths.filter fun path => !paths.any (Path.isStrictPrefix path))

/-- Writes the value of a path that does not lead on. -/
def placeLeaf (flags : List String) (root : Json) (path : String) : Json :=
  match Path.keys? path with
  | some keys =>
    place (if flags.contains path then .bool true else builder.standIn path keys) keys root
  | none => root

/-- Example data for some paths, with the given collections. Flags are paths too; their value is
true. -/
def build (paths : List String) (arrays : List DeclaredArray) (flags : List String) : Json :=
  let candidates := builder.candidates (paths ++ flags)
  let digestPaths := candidates.filter isDigest
  let scalarPaths := candidates.filter fun path => !isDigest path
  let root := builder.placeDigest arrays digestPaths (.object [])
  let root := builder.placeArrays arrays scalarPaths root
  (leaves scalarPaths).foldl (builder.placeLeaf (flags.map Path.stripIndices)) root

/-- Adds the stand-in of a path that is missing from some data. -/
def fillIn (data : Json) (path : String) : Json :=
  let path := Path.normalize path
  match Path.keys? path with
  | some keys => fill (builder.standIn path keys) keys data
  | none => data

/-- Some data with a stand-in for each path that is missing from it. Nothing that is there
changes. -/
def withStandIns (data : Json) (paths : List String) : Json :=
  paths.foldl builder.fillIn (if data.isObject then data else .object [])

end Builder

/-- Example data with the usual settings and no flags. -/
def keysToObject (now : String) (paths : List String) (arrays : List DeclaredArray) : Json :=
  (Builder.standard now).build paths arrays []

end MessageTemplate.Example
