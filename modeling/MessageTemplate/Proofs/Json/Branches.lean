import MessageTemplate.Proofs.Json.Access

/-! # What names lead to in each branch

In each branch of a value, names lead to a value or to nothing. Reading in every branch is the case
that they lead to something everywhere. -/

namespace MessageTemplate.Json

/-- What names lead to has a property in each branch. Where a name is missing, they lead to
nothing. -/
def EachBranch (good : Option Json → Prop) : List String → Json → Prop
  | [], value => good (some value)
  | name :: rest, value => ∀ inner ∈ spread value, match inner.member? name with
    | some next => EachBranch good rest next
    | none => good none

section EachBranch

variable {good : Option Json → Prop} {name : String} {rest names : List String} {value : Json}

theorem eachBranch_cons_iff :
    EachBranch good (name :: rest) value ↔ ∀ inner ∈ spread value,
      (inner.member? name = none → good none) ∧
        ∀ next, inner.member? name = some next → EachBranch good rest next := by
  rw [EachBranch]
  refine forall₂_congr fun inner _ => ?_
  cases inner.member? name with
  | none => simp
  | some next => simp

theorem eachBranch_empty (full : names ≠ []) (nothing : good none) :
    EachBranch good names (.object []) := by
  obtain ⟨name, rest, rfl⟩ := List.exists_cons_of_ne_nil full
  apply eachBranch_cons_iff.mpr
  intro inner inside
  rw [spread_of_plain rfl, List.mem_singleton] at inside
  subst inside
  exact ⟨fun _ => nothing, fun _ found => nomatch found⟩

theorem eachBranch_of_not_someBranch (absent : ¬ SomeBranch names value) (nothing : good none) :
    EachBranch good names value := by
  induction names generalizing value with
  | nil => exact absurd .here absent
  | cons name rest ih =>
    apply eachBranch_cons_iff.mpr
    intro inner inside
    refine ⟨fun _ => nothing, fun next found => ih fun reached => absent ?_⟩
    exact someBranch_cons_iff.mpr ⟨inner, inside, next, found, reached⟩

theorem EachBranch.mono {better : Option Json → Prop} (implies : ∀ found, good found → better found)
    (each : EachBranch good names value) : EachBranch better names value := by
  induction names generalizing value with
  | nil => exact implies _ each
  | cons name rest ih =>
    apply eachBranch_cons_iff.mpr
    intro inner inside
    obtain ⟨missing, present⟩ := eachBranch_cons_iff.mp each inner inside
    exact ⟨fun none => implies _ (missing none), fun next found => ih (present next found)⟩

/-- Names lead to a value in every branch if they lead to nothing in none. -/
theorem everyBranch_iff_eachBranch {good : Json → Prop} :
    EveryBranch good names value ↔
      EachBranch (fun found => ∃ next ∈ found, good next) names value := by
  induction names generalizing value with
  | nil =>
    constructor
    · intro reached
      cases reached with
      | here holds => exact ⟨value, rfl, holds⟩
    · rintro ⟨next, same, holds⟩
      cases same
      exact .here holds
  | cons name rest ih =>
    rw [everyBranch_cons_iff, eachBranch_cons_iff]
    refine forall₂_congr fun inner _ => ?_
    cases inner.member? name with
    | none => simp
    | some next => simp [ih]

/-- From a value that holds no other values, names lead to nothing. -/
theorem EachBranch.nothing (each : EachBranch good names value) (full : names ≠ [])
    (noItems : value.items? = none) (noMembers : value.members? = none) : good none := by
  obtain ⟨name, rest, rfl⟩ := List.exists_cons_of_ne_nil full
  have inside : value ∈ spread value := by simp [spread_of_plain noItems]
  refine (eachBranch_cons_iff.mp each value inside).1 ?_
  cases value with
  | object => cases noMembers
  | null | bool | number | string | array => rfl

end EachBranch

end MessageTemplate.Json
