import MessageTemplate.Text.Basic

/-! # Paths into the steps of a workflow

The data of a step stands under `steps.<step>`. A digest step collects events, each with a
payload; other steps tell whether and when a message was seen and read. -/

namespace MessageTemplate.StepPath

open Text

/-- Characters of the name of a step. -/
def isStepChar (c : Char) : Bool :=
  c ≠ '.' && c ≠ '[' && c ≠ ']'

/-- Splits `steps.<step>.` off a path. The first part keeps the dot. -/
def step? (path : List Char) : Option (List Char × List Char) := do
  let rest ← "steps.".toList.isPrefixOf? path
  let name := rest.takeWhile isStepChar
  let rest ← ['.'].isPrefixOf? (rest.dropWhile isStepChar)
  if name.isEmpty then none else some ("steps.".toList ++ name ++ ['.'], rest)

/-- Splits the events collection `steps.<step>.events` off a path. -/
def events? (path : List Char) : Option (List Char × List Char) := do
  let (start, rest) ← step? path
  let rest ← "events".toList.isPrefixOf? rest
  return (start ++ "events".toList, rest)

/-- Leaves out a position in brackets at the start of a text, if one stands there. -/
def dropIndex (text : List Char) : List Char :=
  match text with
  | '[' :: rest =>
    match rest.takeWhile isDecimalDigit, rest.dropWhile isDecimalDigit with
    | _ :: _, ']' :: after => after
    | _, _ => text
  | _ => text

/-- Splits a path into the events of a digest step and what is read from the payload of each. -/
def payloadOf? (path : List Char) : Option (List Char × List Char) := do
  let (events, rest) ← events? path
  let rest ← ".payload.".toList.isPrefixOf? (dropIndex rest)
  return (events, rest)

/-- Whether a path is the events collection of a digest step. -/
def isEvents (path : String) : Bool :=
  match events? path.toList with
  | some (_, []) => true
  | _ => false

/-- The events and the payload path of a path into the payload of an event. The payload path is
not empty and stays on one line. -/
def eventPayload? (path : String) : Option (String × String) :=
  match payloadOf? path.toList with
  | some (events, rest) =>
    if rest.isEmpty || rest.contains '\n' then none
    else some (String.ofList events, String.ofList rest)
  | none => none

/-- The field of a step that a path reads, if it ends there. -/
def field? (path : String) : Option String :=
  (step? path.toList).map fun (_, rest) => String.ofList rest

/-- Whether a path tells if a message was seen or read. -/
def isStatus (path : String) : Bool :=
  field? path = some "seen" || field? path = some "read"

/-- Whether a path tells when a message was last seen or read. -/
def isDate (path : String) : Bool :=
  field? path = some "lastSeenDate" || field? path = some "lastReadDate"

/-- Whether a path lies in a namespace that may hold any key: the data of the subscriber, the
payload, or the payload of an event. -/
def isOpen (path : String) : Bool :=
  let text := path.toList
  "subscriber.data.".toList.isPrefixOf text || "payload.".toList.isPrefixOf text
    || (payloadOf? text).isSome

/-- Whether a text is a chain of names between dots. -/
def isNameChain (text : String) : Bool :=
  (text.toList.splitOn '.').all isName

end MessageTemplate.StepPath
