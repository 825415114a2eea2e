import MessageTemplate.Keyed
import MessageTemplate.Path

/-! # Variable schemas and the gate

A schema describes the data of a message. The gate decides which paths may be read from data of
that description: a path is followed through declared properties and array elements, and where
the description ends, it is allowed exactly if undeclared properties are. -/

namespace MessageTemplate

/-- What a schema describes. -/
inductive SchemaKind where
  | object
  | array
  | string
  | number
  | boolean
  | null
  | union
  deriving DecidableEq, Repr

/-- The description of a value: its kind, the properties it declares, the description of its
elements, and whether it admits properties that it does not declare. -/
structure Schema where
  kind : SchemaKind
  properties : List (String × Schema)
  items : Option Schema
  additional : Bool

namespace Schema

/-- A closed description without properties and elements. -/
def leaf (kind : SchemaKind) : Schema := ⟨kind, [], none, false⟩

instance : Inhabited Schema := ⟨leaf .null⟩

/-- The description of a declared property. -/
def property? (name : String) (schema : Schema) : Option Schema :=
  Keyed.get? name schema.properties

/-- The description of the elements, where there are elements to be indexed. -/
def elements? (schema : Schema) : Option Schema :=
  match schema.kind with
  | .array => schema.items
  | .union => schema.items
  | _ => none

/-- The description one step further down a path. A position leads to the elements, also when it
is written as a property; a property of an array is looked up in its elements. -/
def step? (schema : Schema) (segment : Segment) : Option Schema :=
  match schema.property? segment.asKey with
  | some next => some next
  | none =>
    schema.elements?.bind fun elements =>
      match segment with
      | .index _ => some elements
      | .key name =>
        if (Text.count? name.toList).isSome then some elements else elements.property? name

/-- Whether the rest of a path may be read. -/
def allowsSegments : Schema → List Segment → Bool
  | _, [] => true
  | schema, segment :: rest =>
    match schema.step? segment with
    | some next => next.allowsSegments rest
    | none => schema.additional

/-- Whether a path may be read. A text that is no path may not. -/
def allows (schema : Schema) (path : String) : Bool :=
  match Path.split? path with
  | some segments => schema.allowsSegments segments
  | none => false

end Schema

/-- Whether a path may be read where a schema is optional. Without one every text may. -/
def isPathAllowed (schema : Option Schema) (path : String) : Bool :=
  match schema with
  | some schema => schema.allows path
  | none => true

end MessageTemplate
