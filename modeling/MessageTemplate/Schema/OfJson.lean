import MessageTemplate.Schema.Basic
import MessageTemplate.Json.Writer

/-! # Schemas from JSON Schema

Understood are `type`, `properties`, `items`, `additionalProperties` and the unions `anyOf` and
`oneOf`. As in JSON Schema, an object without `additionalProperties` admits any property. -/

namespace MessageTemplate

/-- Why a part of a JSON Schema is refused. -/
inductive SchemaFlaw where
  | notASchema
  | badType (found : Json)

/-- A JSON Schema that cannot be converted: a type name that is not known, or a flaw at a place
of the document. -/
inductive SchemaError where
  | unsupportedType (name : String)
  | invalid (place : String) (flaw : SchemaFlaw)

/-- The wording of a flaw. -/
def SchemaFlaw.message : SchemaFlaw → String
  | notASchema => "schema must be an object or boolean"
  | badType found => "unexpected 'type' value " ++ found.text

/-- The wording of an error. -/
def SchemaError.message : SchemaError → String
  | unsupportedType name => "Unsupported schema type: " ++ name
  | invalid place flaw => "Invalid schema at '" ++ place ++ "': " ++ flaw.message

/-- The kind with a type name. -/
def SchemaKind.ofName (name : String) : Except SchemaError SchemaKind :=
  match name with
  | "object" => .ok .object
  | "array" => .ok .array
  | "string" => .ok .string
  | "number" => .ok .number
  | "integer" => .ok .number
  | "boolean" => .ok .boolean
  | "null" => .ok .null
  | _ => .error (.unsupportedType name)

namespace Schema

/-- The type names of a list, those that are no text or `null` left out. -/
def typeNames (names : List Json) : List String :=
  (names.filterMap Json.string?).filter (· ≠ "null")

/-- The kind that the members of a JSON Schema give. -/
def kindOf (place : String) (members : Keyed Json) : Except SchemaError SchemaKind :=
  match Keyed.get? "type" members with
  | some (.string name) => SchemaKind.ofName name
  | some (.array names) => do
    match ← (typeNames names).mapM SchemaKind.ofName with
    | [] => return .null
    | [single] => return single
    | _ => return .union
  | some other => .error (.invalid place (.badType other))
  | none =>
    if Keyed.has "properties" members then .ok .object
    else if Keyed.has "items" members then .ok .array
    else .ok .union

/-- Whether properties beyond the declared ones are admitted. -/
def admitsAdditional (kind : SchemaKind) (members : Keyed Json) : Bool :=
  match Keyed.get? "additionalProperties" members with
  | some (.bool allowed) => allowed
  | some (.object _) => true
  | _ => kind = .object || kind = .union

/-- The alternatives of a union. -/
def variants? (members : Keyed Json) : Option (List Json) :=
  match Keyed.get? "anyOf" members with
  | some variants => variants.items?
  | none => (Keyed.get? "oneOf" members).bind Json.items?

/-- Adds an alternative to a union. The first alternative that declares a property, or elements,
describes them. -/
def addVariant (merged variant : Schema) : Schema where
  kind := .union
  properties := variant.properties.foldl
    (fun properties entry => Keyed.insertNew entry.1 entry.2 properties) merged.properties
  items := merged.items.orElse fun _ => variant.items
  additional := merged.additional || variant.additional

/-- The union of some alternatives. -/
def union (variants : List Schema) : Schema :=
  variants.foldl addVariant (leaf .union)

theorem sizeOf_lt_of_get? {key : String} {members : List (String × Json)} {value : Json}
    (found : Keyed.get? key members = some value) : sizeOf value < sizeOf members := by
  induction members with
  | nil => simp at found
  | cons entry rest ih =>
    obtain ⟨other, old⟩ := entry
    rw [Keyed.get?] at found
    split at found
    · obtain rfl := Option.some.inj found
      simp only [List.cons.sizeOf_spec, Prod.mk.sizeOf_spec]
      omega
    · have := ih found
      simp only [List.cons.sizeOf_spec]
      omega

theorem sizeOf_lt_of_variants? {members : List (String × Json)} {variants : List Json}
    (found : variants? members = some variants) : sizeOf variants < sizeOf members := by
  have inside {key : String} {value : Json} (present : Keyed.get? key members = some value)
      (items : value.items? = some variants) : sizeOf variants < sizeOf members := by
    have := sizeOf_lt_of_get? present
    cases value with
    | array all =>
      obtain rfl := Option.some.inj items
      simp only [Json.array.sizeOf_spec] at this
      omega
    | _ => simp [Json.items?] at items
  unfold variants? at found
  split at found
  · next present => exact inside present found
  · obtain ⟨value, present, items⟩ := Option.bind_eq_some_iff.mp found
    exact inside present items

mutual

/-- Converts the JSON Schema at a place of a document. -/
def convert (place : String) (value : Json) : Except SchemaError Schema :=
  match value with
  | .bool additional => .ok ⟨.object, [], none, additional⟩
  | .object members =>
    match _h : variants? members with
    | some variants => (convertVariants place 0 variants).map union
    | none => do
      let kind ← kindOf place members
      let properties ← (match _p : Keyed.get? "properties" members with
        | some (.object declared) => convertProperties place declared
        | _ => .ok [])
      let items ← (match _i : Keyed.get? "items" members with
        | some items => (convert (place ++ "/items") items).map some
        | none => .ok none)
      return ⟨kind, properties, items, admitsAdditional kind members⟩
  | _ => .error (.invalid place .notASchema)
termination_by sizeOf value
decreasing_by
  · have := sizeOf_lt_of_variants? _h
    simp only [Json.object.sizeOf_spec]
    omega
  · have := sizeOf_lt_of_get? _p
    simp only [Json.object.sizeOf_spec] at *
    omega
  · have := sizeOf_lt_of_get? _i
    simp only [Json.object.sizeOf_spec]
    omega

/-- Converts the alternatives of a union from a number on. -/
def convertVariants (place : String) (number : Nat) (variants : List Json) :
    Except SchemaError (List Schema) :=
  match variants with
  | [] => .ok []
  | variant :: rest => do
    let first ← convert (place ++ "/anyOf/" ++ toString number) variant
    let others ← convertVariants place (number + 1) rest
    return first :: others
termination_by sizeOf variants

/-- Converts declared properties. -/
def convertProperties (place : String) (declared : List (String × Json)) :
    Except SchemaError (Keyed Schema) :=
  match declared with
  | [] => .ok []
  | (name, property) :: rest => do
    let schema ← convert (place ++ "/properties/" ++ name) property
    let others ← convertProperties place rest
    return (name, schema) :: others
termination_by sizeOf declared

end

/-- The schema of a JSON Schema document. -/
def ofJson (document : Json) : Except SchemaError Schema :=
  convert "#" document

end Schema

end MessageTemplate
