import MessageTemplate.Json.Access
import MessageTemplate.Schema.Conformance

/-! # Where the gate strays

The gate follows a path through the description of a value. It strays from a JSON Schema where it goes on
by another description than the one the value is to conform to, which refuses the rest of the path, or
refuses a step about which the schema says nothing. A step does so in four ways (`Misses`); every other
step is taken by the schema's own rules. -/

namespace MessageTemplate.Schema

/-- The names of the types that a schema asks for, `null` left out. -/
def typesOf? (members : Keyed Json) : Option (List String) :=
  match Keyed.get? "type" members with
  | some (.string name) => some [name]
  | some (.array names) => some (typeNames names)
  | _ => none

/-- Whether the gate goes by the elements of a schema that describes any: the schema asks for arrays
alone, or for one of several types, or neither for a type nor for properties. -/
def goesByElements (members : Keyed Json) : Bool :=
  match typesOf? members with
  | some [name] => name = "array"
  | some names => 2 ≤ names.length
  | none => !Keyed.has "properties" members

/-- The schema of the elements, if the gate goes by it. -/
def elementSchema? (members : Keyed Json) : Option Json :=
  if goesByElements members then Keyed.get? "items" members else none

/-- The schema that a property that is not declared leads to within the elements: theirs, if it is written
like a position, or else that of the property that they declare. -/
def withinItems? (items : Json) (name : String) : Option Json :=
  if (Text.count? name.toList).isSome then some items
  else Keyed.get? name (declaredProperties (items.members?.getD []))

/-- The gate for a schema document refuses some steps. -/
def GateRefuses (document : Json) (segments : List Segment) : Prop :=
  ∃ schema, ofJson document = .ok schema ∧ schema.allowsSegments segments = false

/-- A step that the gate does not take by the schema of the value. -/
inductive Misses (members : Keyed Json) : Segment → List Segment → Prop where
  /-- A position, where the elements are not described and undeclared properties are not admitted: they
  are refused, or only arrays are asked for. -/
  | undescribed {position : Nat} {rest : List Segment} :
      Keyed.get? (toString position) (declaredProperties members) = none →
      elementSchema? members = none →
      Keyed.get? "additionalProperties" members = some (.bool false) ∨
        (Keyed.get? "additionalProperties" members = none ∧ typesOf? members = some ["array"]) →
      Misses members (.index position) rest
  /-- A position whose digits are a declared property, the schema of which refuses the rest. -/
  | digits {position : Nat} {rest : List Segment} {property : Json} :
      Keyed.get? (toString position) (declaredProperties members) = some property →
      GateRefuses property rest → Misses members (.index position) rest
  /-- An undeclared property, where elements are described but no type is asked for. -/
  | untyped {name : String} {rest : List Segment} {items : Json} :
      Keyed.get? name (declaredProperties members) = none →
      elementSchema? members = some items → withinItems? items name = none →
      typesOf? members = none → Keyed.get? "additionalProperties" members = none →
      Misses members (.key name) rest
  /-- An undeclared property that is found within the elements, the schema of which refuses the rest. -/
  | element {name : String} {rest : List Segment} {items next : Json} :
      Keyed.get? name (declaredProperties members) = none →
      elementSchema? members = some items → withinItems? items name = some next →
      GateRefuses next rest → Misses members (.key name) rest

/-- The schema behind a step, if it is the one of the value there: that of a declared property, or of the
elements where the digits of the position are no declared property. -/
def nextSchema? (members : Keyed Json) : Segment → Option Json
  | .key name => Keyed.get? name (declaredProperties members)
  | .index position =>
    match Keyed.get? (toString position) (declaredProperties members) with
    | some _ => none
    | none => elementSchema? members

/-- At some step along the declared properties and the elements of a schema, the gate does not take a
path by the schema of the value. -/
inductive Strays : Json → List Segment → Prop where
  | here {members : List (String × Json)} {segment : Segment} {rest : List Segment} :
      Misses members segment rest → Strays (.object members) (segment :: rest)
  | later {members : List (String × Json)} {segment : Segment} {rest : List Segment} {next : Json} :
      nextSchema? members segment = some next → Strays next rest →
      Strays (.object members) (segment :: rest)

end MessageTemplate.Schema
