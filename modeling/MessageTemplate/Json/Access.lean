import MessageTemplate.Json.Basic
import MessageTemplate.Path

/-! # Reading a value

Three ways of following a path into a value. Chains of property names pass through arrays, either
into some element or into all of them, and leave positions out; segments take each step as it is
written. Where names lead to nothing yet, they are open if only objects and arrays stand on the
way. -/

namespace MessageTemplate.Json

/-- A chain of names leads to a value in some branch. -/
inductive SomeBranch : List String → Json → Prop where
  | here {value : Json} : SomeBranch [] value
  | member {name : String} {rest : List String} {members : List (String × Json)} {value : Json} :
      Keyed.get? name members = some value → SomeBranch rest value →
      SomeBranch (name :: rest) (.object members)
  | element {name : String} {rest : List String} {items : List Json} {item : Json} :
      item ∈ items → SomeBranch (name :: rest) item → SomeBranch (name :: rest) (.array items)

/-- A chain of names leads in every branch to a value with a property. -/
inductive EveryBranch (good : Json → Prop) : List String → Json → Prop where
  | here {value : Json} : good value → EveryBranch good [] value
  | member {name : String} {rest : List String} {members : List (String × Json)} {value : Json} :
      Keyed.get? name members = some value → EveryBranch good rest value →
      EveryBranch good (name :: rest) (.object members)
  | elements {name : String} {rest : List String} {items : List Json} :
      (∀ item ∈ items, EveryBranch good (name :: rest) item) →
      EveryBranch good (name :: rest) (.array items)

/-- Only objects and arrays stand on the way along a chain of names, as far as the names lead. What
they lead to may be anything. -/
inductive Open : List String → Json → Prop where
  | here {value : Json} : Open [] value
  | object {name : String} {rest : List String} {members : List (String × Json)} :
      (∀ value, Keyed.get? name members = some value → Open rest value) →
      Open (name :: rest) (.object members)
  | elements {name : String} {rest : List String} {items : List Json} :
      (∀ item ∈ items, Open (name :: rest) item) → Open (name :: rest) (.array items)

/-- Segments can be read one by one. A name passes through an array into all of its elements; a
position needs an element there. -/
inductive Readable : List Segment → Json → Prop where
  | here {value : Json} : Readable [] value
  | member {name : String} {rest : List Segment} {members : List (String × Json)} {value : Json} :
      Keyed.get? name members = some value → Readable rest value →
      Readable (.key name :: rest) (.object members)
  | elements {name : String} {rest : List Segment} {items : List Json} :
      (∀ item ∈ items, Readable (.key name :: rest) item) →
      Readable (.key name :: rest) (.array items)
  | position {index : Nat} {rest : List Segment} {items : List Json} {item : Json} :
      items[index]? = some item → Readable rest item → Readable (.index index :: rest) (.array items)

/-- The value that one segment leads to. -/
def step? (value : Json) : Segment → Option Json
  | .key name => value.member? name
  | .index position => value.items?.bind fun items => items[position]?

/-- The value that segments lead to, each taken as it is written. -/
def resolve? (value : Json) (segments : List Segment) : Option Json :=
  segments.foldlM step? value

@[simp] theorem resolve?_nil (value : Json) : value.resolve? [] = some value := rfl

@[simp] theorem resolve?_cons (value : Json) (segment : Segment) (rest : List Segment) :
    value.resolve? (segment :: rest) = (value.step? segment).bind fun next => next.resolve? rest :=
  List.foldlM_cons

/-- A weaker property holds in every branch too. -/
theorem EveryBranch.mono {good better : Json → Prop} {names : List String} {value : Json}
    (implies : ∀ value, good value → better value) (reached : EveryBranch good names value) :
    EveryBranch better names value := by
  induction reached with
  | here holds => exact .here (implies _ holds)
  | member found _ ih => exact .member found ih
  | elements _ ih => exact .elements ih

end MessageTemplate.Json
