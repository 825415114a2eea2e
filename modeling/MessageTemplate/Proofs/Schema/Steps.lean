import MessageTemplate.Schema.Divergence

/-! # Steps of the gate

A step leads on by the declared property, or else by what is found within the elements
(`step?_eq`); where it does not lead on, the rest of the path is allowed exactly if undeclared
properties are. -/

namespace MessageTemplate.Schema

variable {schema : Schema}

theorem isPathAllowed_of_split? {path : String} {segments : List Segment}
    (read : Path.split? path = some segments) :
    isPathAllowed (some schema) path = schema.allowsSegments segments := by
  rw [isPathAllowed, allows, read]

theorem allowsSegments_of_step? {segment : Segment} {rest : List Segment} {next : Schema}
    (step : schema.step? segment = some next) :
    schema.allowsSegments (segment :: rest) = next.allowsSegments rest := by
  rw [allowsSegments, step]

theorem allowsSegments_of_step?_none {segment : Segment} {rest : List Segment}
    (step : schema.step? segment = none) :
    schema.allowsSegments (segment :: rest) = schema.additional := by
  rw [allowsSegments, step]

/-- A step is looked for among the declared properties, and then within the elements. -/
theorem step?_eq (schema : Schema) (segment : Segment) :
    schema.step? segment =
      (schema.property? segment.asKey).or
        (schema.elements?.bind fun elements => elements.within? segment) := by
  rw [step?]
  cases schema.property? segment.asKey with
  | some next => rfl
  | none => rfl

/-- Beyond the declared properties a position leads to the elements. -/
theorem step?_index {position : Nat} (undeclared : schema.property? (toString position) = none) :
    schema.step? (.index position) = schema.elements? := by
  rw [step?_eq, Segment.asKey, undeclared]
  exact Option.bind_fun_some _

/-- Beyond the declared properties a property is looked for in the elements. -/
theorem step?_key {name : String} (undeclared : schema.property? name = none) :
    schema.step? (.key name) = schema.elements?.bind fun elements =>
      if (Text.count? name.toList).isSome then some elements else elements.property? name := by
  rw [step?_eq, Segment.asKey, undeclared]
  rfl

/-- Behind steps that are described the path goes on by the description that they lead to. -/
theorem allowsSegments_append_of_walk? {front rest : List Segment} {next : Schema}
    (walk : schema.walk? front = some next) :
    schema.allowsSegments (front ++ rest) = next.allowsSegments rest := by
  induction front generalizing schema with
  | nil =>
    cases walk
    rfl
  | cons segment front ih =>
    obtain ⟨inner, step, walk⟩ := Option.bind_eq_some_iff.mp walk
    rw [List.cons_append, allowsSegments_of_step? step, ih walk]

end MessageTemplate.Schema
