import MessageTemplate.Json.Reader
import MessageTemplate.Settings.Decode
import MessageTemplate.Settings.EnvFile

/-! # Where settings come from

Settings are laid over each other: the usual values, the file for all modes, the file for the
mode of the run, and the variables of the environment. -/

namespace MessageTemplate.Settings

open Text EnvFile

mutual

/-- Lays a value over another one. Objects are laid over each other key by key; any other value
takes the place of the one below. An empty object leaves what is there. -/
def overlay (below : Option Json) : Json → Json
  | .object [] => below.getD (.object [])
  | .object (member :: rest) =>
    .object (overlayMembers ((below.bind Json.members?).getD []) (member :: rest))
  | value => value

/-- Lays the members of an object over others. -/
def overlayMembers (below : List (String × Json)) : List (String × Json) → List (String × Json)
  | [] => below
  | (key, value) :: rest =>
    overlayMembers (Keyed.insert key (overlay (Keyed.get? key below) value) below) rest

end

/-- Lays a value over what stands at the end of a chain of keys. -/
def overlayAt : List String → Json → Option Json → Json
  | [], value, below => overlay below value
  | key :: rest, value, below =>
    let members := (below.bind Json.members?).getD []
    .object (Keyed.insert key (overlayAt rest value (Keyed.get? key members)) members)

/-- A text in lower case. -/
def lowered (text : String) : String := String.ofList (text.toList.map Char.toLower)

/-- Characters of the name of a setting. -/
def isKeyChar (c : Char) : Bool := c.isAlphanum || c = ' ' || c = '_' || c = '-'

/-- The keys that a name with dots leads through. Any other text is a key itself. -/
def keysOf (name : String) : List String :=
  let parts := name.toList.splitOn '.'
  if parts.all fun part => !part.isEmpty && part.all isKeyChar then parts.map String.ofList
  else [name]

mutual

/-- A value as it stands in a file: keys count in lower case, and whole numbers beyond 63 bits are
doubles. -/
def plainValue : Json → Json
  | .array items => .array (plainItems items)
  | .object members => .object (Keyed.ofList (plainMembers members))
  | .number (.whole value) =>
    if value ≤ maxInteger then .number (.whole value) else .number (.real (Float.ofInt value))
  | value => value

/-- `plainValue` on the items of an array. -/
def plainItems : List Json → List Json
  | [] => []
  | item :: rest => plainValue item :: plainItems rest

/-- `plainValue` on the members of an object. -/
def plainMembers : List (String × Json) → List (String × Json)
  | [] => []
  | (key, value) :: rest => (lowered key, plainValue value) :: plainMembers rest

end

/-- Lays named values over each other. -/
def overlayAll (named : List (String × Json)) (below : Json) : Json :=
  named.foldl (fun below (name, value) => overlayAt (keysOf name) value (some below)) below

/-- The settings in the text of a file, which must be an object. -/
def fileMembers? (text : String) : Option (List (String × Json)) :=
  match (Json.read? (String.ofList (withoutMark text.toList))).map plainValue with
  | some (.object members) => some members
  | _ => none

/-- Files by name. -/
abbrev Files := List (String × String)

/-- The file with a name, or else with the extension of JSON files behind it. A name found as it
is must have that extension. -/
def findFile? (files : Files) (name : String) : Option String :=
  match List.lookup name files with
  | some text => if name.endsWith ".json" then some text else none
  | none => List.lookup (name ++ ".json") files

/-- Lays the settings of a file over others. A file that is not there changes nothing. -/
def overlayFile (files : Files) (name : String) (below : Json) : Except SettingsError Json :=
  match findFile? files name with
  | none => .ok below
  | some text =>
    match fileMembers? text with
    | some members => .ok (overlayAll members below)
    | none => .error (.unreadable name)

/-- The value of a variable: a truth value, an integer, a double, or else a text. -/
def variableValue (text : String) : Json :=
  if lowered text = "true" then .bool true
  else if lowered text = "false" then .bool false
  else
    match integer? text.toList with
    | some value => .number (.whole value)
    | none =>
      match Decimal.float? text.toList with
      | some value => .number (.real value)
      | none => .string text

/-- What the names of variables with settings start with, in lower case. -/
def variableStart : List Char := "preview__".toList

/-- A text with dots for double underscores. -/
def dotted : List Char → List Char
  | '_' :: '_' :: rest => '.' :: dotted rest
  | c :: rest => c :: dotted rest
  | [] => []

/-- The setting that a variable holds, if it holds one. -/
def variableSetting? (entry : String × String) : Option (String × Json) :=
  (variableStart.isPrefixOf? (lowered entry.1).toList).map fun name =>
    (String.ofList (dotted name), variableValue entry.2)

/-- The variable that names the mode of the run. -/
def modeVariable : String := "RUN_MODE"

/-- The mode of a run that does not name one. -/
def usualMode : String := "development"

/-- The file with further variables. -/
def variablesFile : String := ".env"

/-- Puts all layers together. -/
def layers (environment : Environment) (files : Files) : Except SettingsError Json := do
  let mode := (environment.value? modeVariable).getD usualMode
  let common ← overlayFile files "config/default" (.object [])
  let specific ← overlayFile files ("config/" ++ mode) common
  return overlayAll (environment.filterMap variableSetting?) specific

/-- The settings of a run. -/
def load (environment : Environment) (files : Files) : Except SettingsError Settings := do
  let environment := match List.lookup variablesFile files with
    | some text => EnvFile.load environment text
    | none => environment
  decode .lenient (← layers environment files)

end MessageTemplate.Settings
