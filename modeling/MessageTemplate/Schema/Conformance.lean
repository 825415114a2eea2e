import MessageTemplate.Schema.OfJson

/-! # Values that conform to a JSON Schema

The meaning of the keywords `type`, `properties`, `items` and `additionalProperties` and of the two
trivial schemas, said of schema documents and values. A keyword restricts only the values it is
about: properties only objects, elements only arrays. Unions are left out. -/

namespace MessageTemplate.Schema

/-- Whether a number has no fraction. -/
def isWhole : Number → Bool
  | .whole _ => true
  | .real value => value.isFinite && value.floor == value

/-- Whether a value has the type with a name. -/
def hasType (name : String) : Json → Bool
  | .null => name = "null"
  | .bool _ => name = "boolean"
  | .number value => name = "number" || (name = "integer" && isWhole value)
  | .string _ => name = "string"
  | .array _ => name = "array"
  | .object _ => name = "object"

/-- Whether a value has one of the types that a schema asks for, if it asks for any. -/
def fitsType (members : Keyed Json) (value : Json) : Bool :=
  match Keyed.get? "type" members with
  | some (.string name) => hasType name value
  | some (.array names) => (names.filterMap Json.string?).any fun name => hasType name value
  | _ => true

/-- The schemas of the declared properties. -/
def declaredProperties (members : Keyed Json) : Keyed Json :=
  ((Keyed.get? "properties" members).bind Json.members?).getD []

/-- The schema that a property of a value is to conform to: that of the declared property, or else
the one for all others. -/
def schemaOfProperty? (members : Keyed Json) (name : String) : Option Json :=
  match Keyed.get? name (declaredProperties members) with
  | some schema => some schema
  | none => Keyed.get? "additionalProperties" members

/-- A value conforms to a schema. -/
inductive Conforms : (schema value : Json) → Prop where
  | anything {value : Json} : Conforms (.bool true) value
  | keywords {members : List (String × Json)} {value : Json} :
      fitsType members value = true →
      (∀ fields name field schema, value = .object fields → Keyed.get? name fields = some field →
        schemaOfProperty? members name = some schema → Conforms schema field) →
      (∀ items item schema, value = .array items → item ∈ items →
        Keyed.get? "items" members = some schema → Conforms schema item) →
      Conforms (.object members) value

/-- Nothing conforms to the schema that refuses everything. -/
theorem not_conforms_false (value : Json) : ¬ Conforms (.bool false) value := nofun

/-- A schema document without unions, at any depth of the keywords that are understood. -/
inductive Plain : Json → Prop where
  | trivial {open? : Bool} : Plain (.bool open?)
  | keywords {members : List (String × Json)} :
      Keyed.get? "anyOf" members = none → Keyed.get? "oneOf" members = none →
      (∀ name schema, Keyed.get? name (declaredProperties members) = some schema →
        Plain schema) →
      (∀ schema, Keyed.get? "items" members = some schema → Plain schema) →
      (∀ schema, Keyed.get? "additionalProperties" members = some schema → Plain schema) →
      Plain (.object members)

end MessageTemplate.Schema
