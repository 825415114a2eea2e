import MessageTemplate.Schema.Basic

/-! # Where the gate goes another way

A union is one description, made of all its alternatives, and what one of them says of a property may be
overruled by what another one says. A path that is read without its positions is followed by the
descriptions of the arrays on its way, and not by those of their elements. Where this refuses a path that
may be read otherwise is said here step by step. -/

namespace MessageTemplate.Schema

/-! ## Alternatives of a union -/

/-- The description that a step finds in the description of elements: of the element itself, for a
position and for a property that is written like one, or else of a property of the element. -/
def within? (elements : Schema) : Segment → Option Schema
  | .index _ => some elements
  | .key name =>
    if (Text.count? name.toList).isSome then some elements else elements.property? name

/-- A union does not take the first step of a path as one of its alternatives does, and refuses the
path. -/
inductive Overruled (variants : List Schema) (member : Schema) : List Segment → Prop
  /-- The first alternative that declares the property describes it otherwise, and refuses the rest. -/
  | declared {segment : Segment} {rest : List Segment} {next : Schema} :
      variants.findSome? (property? segment.asKey) = some next → member.step? segment ≠ some next →
      next.allowsSegments rest = false → Overruled variants member (segment :: rest)
  /-- No alternative declares it, and the first alternative that describes elements describes what is
  found there otherwise, and refuses the rest. -/
  | elements {segment : Segment} {rest : List Segment} {elements next : Schema} :
      variants.findSome? (property? segment.asKey) = none →
      variants.findSome? items = some elements → elements.within? segment = some next →
      member.step? segment ≠ some next → next.allowsSegments rest = false →
      Overruled variants member (segment :: rest)
  /-- No alternative declares it or admits undeclared properties, and it is not found in the first
  elements that are described, but in those of the alternative. -/
  | closed {segment : Segment} {rest : List Segment} {elements next : Schema} :
      variants.findSome? (property? segment.asKey) = none →
      variants.findSome? items = some elements → elements.within? segment = none →
      member.step? segment = some next → (∀ variant ∈ variants, variant.additional = false) →
      Overruled variants member (segment :: rest)

/-! ## Paths without their positions -/

/-- The description that steps lead to, where each of them is described. -/
def walk? : Schema → List Segment → Option Schema
  | schema, [] => some schema
  | schema, segment :: rest => (schema.step? segment).bind fun next => next.walk? rest

/-- Followed along its steps, a path comes to positions behind which a property is read otherwise than
without them, and without them it is refused. -/
inductive Diverges : Schema → List Segment → Prop
  /-- The array knows no such property and does not admit undeclared ones. -/
  | unknown {schema : Schema} {positions : List Nat} {name : String} {behind : List Segment} :
      positions ≠ [] → schema.step? (.key name) = none → schema.additional = false →
      Diverges schema (positions.map .index ++ .key name :: behind)
  /-- The array describes the property otherwise than it is described behind the positions, and refuses
  the properties that follow. -/
  | elsewhere {schema other : Schema} {positions : List Nat} {name : String}
      {behind : List Segment} :
      schema.step? (.key name) = some other →
      schema.walk? (positions.map .index ++ [.key name]) ≠ some other →
      other.allowsSegments (Path.propertySegments behind) = false →
      Diverges schema (positions.map .index ++ .key name :: behind)
  /-- The property is described alike, and the path diverges behind it. -/
  | later {schema next : Schema} {positions : List Nat} {name : String} {behind : List Segment} :
      schema.walk? (positions.map .index ++ [.key name]) = some next →
      schema.step? (.key name) = some next → Diverges next behind →
      Diverges schema (positions.map .index ++ .key name :: behind)

end MessageTemplate.Schema
