import MessageTemplate.Decimal.Layout
import MessageTemplate.Json.Basic
import MessageTemplate.Settings.Basic
import MessageTemplate.Settings.Error
import MessageTemplate.Text.Whole

/-! # Settings from JSON

Settings come in two groups, and each of them is an object with the settings by name or an array
with the settings in a fixed order. What is left out takes its usual value; what is not known is
ignored. How a single value is understood is up to a reading: the strict one takes every value for
what it is, the lenient one also turns numbers into texts and the other way round. -/

namespace MessageTemplate.Settings

/-- How single values are understood, and whether an array may be too long. -/
structure Reading where
  text? : Json → Option String
  count? : Json → Option Nat
  flag? : Json → Option Bool
  allowsMore : Bool

namespace Reading

/-- The reading that takes every value for what it is. -/
def strict : Reading where
  text? := Json.string?
  count?
    | .number value => value.count?
    | _ => none
  flag?
    | .bool value => some value
    | _ => none
  allowsMore := false

/-- The truth value that a word stands for. -/
def truthOf? (word : String) : Option Bool :=
  let word := String.ofList (word.toList.map Char.toLower)
  if ["true", "on", "yes"].contains word then some true
  else if ["false", "off", "no"].contains word then some false
  else none

/-- A value as a text: numbers and truth values are written out. -/
def lenientText? : Json → Option String
  | .string text => some text
  | .bool value => some (if value then "true" else "false")
  | .number (.whole value) => some (toString value)
  | .number (.real value) => some (Decimal.plain.write value)
  | _ => none

/-- A value as a count: a text must be a count or a word for a truth value, and doubles are
rounded and cut off at the ends of the range. -/
def lenientCount? : Json → Option Nat
  | .string text => (truthOf? text).map Bool.toNat <|> Text.count? text.toList
  | .bool value => some value.toNat
  | .number (.whole value) => if 0 ≤ value then some value.toNat else none
  | .number (.real value) => some value.round.toUInt64.toNat
  | _ => none

/-- A value as a truth value: numbers are true unless they are zero. -/
def lenientFlag? : Json → Option Bool
  | .string "1" => some true
  | .string "0" => some false
  | .string text => truthOf? text
  | .bool value => some value
  | .number (.whole value) => some (value ≠ 0)
  | .number (.real value) => some (value != 0.0)
  | _ => none

/-- The reading that turns values into each other. -/
def lenient : Reading := ⟨lenientText?, lenientCount?, lenientFlag?, true⟩

end Reading

/-- A group of settings: by name, or in order. -/
inductive Group where
  | named (members : List (String × Json))
  | listed (items : List Json)

namespace Group

/-- The group that a value stands for, given how many settings there are. -/
def ofJson (reading : Reading) (name : String) (size : Nat) : Json → Except SettingsError Group
  | .object members => .ok (named members)
  | .array items =>
    if items.length ≤ size || reading.allowsMore then .ok (listed items) else .error (.badValue name)
  | _ => .error (.badValue name)

/-- A setting, by name or position. -/
def get? (group : Group) (position : Nat) (name : String) : Option Json :=
  match group with
  | named members => Keyed.get? name members
  | listed items => items[position]?

/-- A setting as it is understood, or its usual value if it is left out. -/
def read {α : Type} (group : Group) (understand : Json → Option α) (position : Nat)
    (name : String) (usual : α) : Except SettingsError α :=
  match group.get? position name with
  | none => .ok usual
  | some value =>
    match understand value with
    | some setting => .ok setting
    | none => .error (.badValue name)

end Group

/-- The settings of previews. -/
def decodePreview (reading : Reading) (value : Json) : Except SettingsError PreviewSettings := do
  let usual := PreviewSettings.standard
  let group ← Group.ofJson reading "preview" 6 value
  return {
    contentPlaceholder :=
      ← group.read reading.text? 0 "content_placeholder" usual.contentPlaceholder
    phraseNamespace :=
      ← group.read reading.text? 1 "translation_namespace" usual.phraseNamespace
    digestEvents := ← group.read reading.count? 2 "default_digest_events" usual.digestEvents
    maxIterations := ← group.read reading.count? 3 "max_iterations" usual.maxIterations
    suggestPayload :=
      ← group.read reading.flag? 4 "suggest_payload_namespace" usual.suggestPayload
    cacheCapacity := ← group.read reading.count? 5 "template_cache_size" usual.cacheCapacity }

/-- The settings of the log. -/
def decodeLog (reading : Reading) (value : Json) : Except SettingsError LogSettings := do
  let usual := LogSettings.standard
  let group ← Group.ofJson reading "telemetry" 2 value
  return {
    level := ← group.read reading.text? 0 "log_level" usual.level
    json := ← group.read reading.flag? 1 "json" usual.json }

/-- A group of settings, or its usual values if it is left out. -/
def decodeGroup {α : Type} (decode : Json → Except SettingsError α) (usual : α) :
    Option Json → Except SettingsError α
  | none => .ok usual
  | some value => decode value

/-- All settings. -/
def decode (reading : Reading) (value : Json) : Except SettingsError Settings := do
  let groups ← Group.ofJson reading "settings" 2 value
  return {
    preview := ← decodeGroup (decodePreview reading) .standard (groups.get? 0 "preview")
    log := ← decodeGroup (decodeLog reading) .standard (groups.get? 1 "telemetry") }

end MessageTemplate.Settings
