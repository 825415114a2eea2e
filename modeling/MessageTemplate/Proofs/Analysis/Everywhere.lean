import MessageTemplate.Analysis.Occurrence

/-! # Properties of all occurrences

What is said of the occurrences that one token reads holds of all in a tree, once it is kept when more
names are bound (`forall_occurrencesInAll`). The occurrences in outputs are a case of their own, since
only there names may have blanks and may be read from the elements of a collection. -/

namespace MessageTemplate.Analysis

open Template

/-! ## Outputs in a tree -/

mutual

/-- The expressions of the outputs in a node. -/
def outputs : Node → List String
  | .text _ => []
  | .output expression _ => [expression]
  | .assign _ _ _ => []
  | .capture _ body _ => outputsInAll body
  | .loop _ _ _ _ body otherwise _ => outputsInAll body ++ outputsInAll otherwise
  | .conditional _ branches => outputsInBranches branches
  | .case _ whens otherwise _ => outputsInWhens whens ++ outputsInAll otherwise
  | .tag _ => []

/-- The expressions of the outputs in nodes following each other. -/
def outputsInAll : List Node → List String
  | [] => []
  | node :: rest => outputs node ++ outputsInAll rest

/-- The expressions of the outputs in the branches of a conditional. -/
def outputsInBranches : List (Branch Node) → List String
  | [] => []
  | ⟨_, body, _⟩ :: rest => outputsInAll body ++ outputsInBranches rest

/-- The expressions of the outputs in the branches of a case distinction. -/
def outputsInWhens : List (When Node) → List String
  | [] => []
  | ⟨_, body, _⟩ :: rest => outputsInAll body ++ outputsInWhens rest

end

/-! ## A property of all occurrences -/

/-- A property that every name has which the tag or the filters of a token read, and that does not
depend on what is bound. -/
structure IsCommon (token : Token) (good : Occurrence → Prop) : Prop where
  within : ∀ context name, good (.within context token name)
  under : ∀ names found, good found → good (found.under names)

namespace IsCommon

variable {token : Token} {good : Occurrence → Prop} (common : IsCommon token good)

include common

theorem forall_under {found : List Occurrence} (each : ∀ one ∈ found, good one)
    (names : List String) : ∀ one ∈ found.map (.under names), good one := by
  intro one member
  obtain ⟨inner, present, rfl⟩ := List.mem_map.mp member
  exact common.under names inner (each inner present)

theorem forall_expression (context expression : String) :
    ∀ one ∈ occurrencesInExpression context token expression, good one := by
  intro one member
  obtain ⟨name, -, rfl⟩ := List.mem_map.mp member
  exact common.within context name

theorem forall_expressions (context : String) (expressions : List String) :
    ∀ one ∈ expressions.flatMap (occurrencesInExpression context token), good one :=
  List.forall_mem_flatMap.mpr fun expression _ => common.forall_expression context expression

theorem forall_arguments (calls : List FilterCall) :
    ∀ one ∈ occurrencesInArguments token calls, good one := by
  intro one member
  obtain ⟨call, -, inside⟩ := List.mem_flatMap.mp member
  obtain ⟨name, -, rfl⟩ := List.mem_map.mp inside
  exact common.within call.name name

theorem forall_collection (context : String) (collection : Collection) :
    ∀ one ∈ occurrencesInCollection context token collection, good one := by
  cases collection with
  | range first last => exact common.forall_expressions context _
  | expression text =>
    rw [occurrencesInCollection]
    split
    · simp
    · exact List.forall_mem_singleton.mpr (common.within context _)

theorem forall_loopHead (kind : LoopKind) (collection : Collection) (params : String) :
    ∀ one ∈ occurrencesInLoopHead kind collection params token, good one := by
  refine List.forall_mem_append.mpr ⟨common.forall_collection kind.tagName collection, ?_⟩
  split
  · simp
  · exact common.forall_expression kind.tagName params

end IsCommon

section Everywhere

variable {filters : Filter.Registry} {good : Occurrence → Prop}
  (common : ∀ token, IsCommon token good)

include common

mutual

/-- What holds of the occurrences in outputs, and of all that tags read, holds of every occurrence. -/
theorem forall_occurrences (node : Node)
    (output : ∀ expression ∈ outputs node, ∀ token,
      ∀ one ∈ occurrencesInOutput filters expression token, good one) :
    ∀ one ∈ occurrences filters node, good one := by
  cases node with
  | text => simp [occurrences]
  | output expression token =>
    rw [occurrences]
    exact output expression (by simp [outputs]) token
  | assign target expression token =>
    rw [occurrences]
    exact (common token).forall_under ((common token).forall_expression "assign" expression) [target]
  | capture target body token =>
    rw [outputs] at output
    rw [occurrences]
    exact (common token).forall_under (forall_occurrencesInAll body output) [target]
  | loop kind iterator collection params body otherwise token =>
    rw [outputs, List.forall_mem_append] at output
    rw [occurrences, List.forall_mem_append, List.forall_mem_append]
    exact ⟨⟨(common token).forall_loopHead kind collection params,
      (common token).forall_under (forall_occurrencesInAll body output.1) _⟩,
      forall_occurrencesInAll otherwise output.2⟩
  | conditional kind branches =>
    rw [outputs] at output
    rw [occurrences]
    exact forall_occurrencesInBranches kind branches output
  | case subject whens otherwise token =>
    rw [outputs, List.forall_mem_append] at output
    rw [occurrences, List.forall_mem_append, List.forall_mem_append]
    exact ⟨⟨(common token).forall_expression "case" subject,
      forall_occurrencesInWhens whens output.1⟩, forall_occurrencesInAll otherwise output.2⟩
  | tag tag =>
    rw [occurrences]
    split
    · exact (common tag.token).forall_expression "cycle" tag.markup
    · simp

theorem forall_occurrencesInAll (nodes : List Node)
    (output : ∀ expression ∈ outputsInAll nodes, ∀ token,
      ∀ one ∈ occurrencesInOutput filters expression token, good one) :
    ∀ one ∈ occurrencesInAll filters nodes, good one := by
  cases nodes with
  | nil => simp [occurrencesInAll]
  | cons node rest =>
    rw [outputsInAll, List.forall_mem_append] at output
    rw [occurrencesInAll, List.forall_mem_append]
    exact ⟨forall_occurrences node output.1,
      (common default).forall_under (forall_occurrencesInAll rest output.2) _⟩

theorem forall_occurrencesInBranches (kind : ConditionalKind) (branches : List (Branch Node))
    (output : ∀ expression ∈ outputsInBranches branches, ∀ token,
      ∀ one ∈ occurrencesInOutput filters expression token, good one) :
    ∀ one ∈ occurrencesInBranches filters kind branches, good one := by
  cases branches with
  | nil => simp [occurrencesInBranches]
  | cons branch rest =>
    obtain ⟨condition, body, token⟩ := branch
    rw [outputsInBranches, List.forall_mem_append] at output
    rw [occurrencesInBranches, List.forall_mem_append, List.forall_mem_append]
    exact ⟨⟨(common token).forall_expressions kind.tagName condition.toList,
      forall_occurrencesInAll body output.1⟩, forall_occurrencesInBranches kind rest output.2⟩

theorem forall_occurrencesInWhens (whens : List (When Node))
    (output : ∀ expression ∈ outputsInWhens whens, ∀ token,
      ∀ one ∈ occurrencesInOutput filters expression token, good one) :
    ∀ one ∈ occurrencesInWhens filters whens, good one := by
  cases whens with
  | nil => simp [occurrencesInWhens]
  | cons branch rest =>
    obtain ⟨values, body, token⟩ := branch
    rw [outputsInWhens, List.forall_mem_append] at output
    rw [occurrencesInWhens, List.forall_mem_append, List.forall_mem_append]
    exact ⟨⟨(common token).forall_expressions "when" _, forall_occurrencesInAll body output.1⟩,
      forall_occurrencesInWhens rest output.2⟩

end

end Everywhere

end MessageTemplate.Analysis
