import MessageTemplate.Proofs.Example.Place
import MessageTemplate.Proofs.Json.Branches

/-! # What stands at the end of names

A write changes what names lead to only if they start its keys, or if its keys end on their way. An
array or an object at their end stays one, and everything else gives way. -/

namespace MessageTemplate.Example

open Json

theorem scalar_of_not_isContainer {value : Json} (bare : ¬ isContainer value) :
    value.items? = none ∧ value.members? = none := by
  cases value with
  | array | object => exact absurd rfl bare
  | null | bool | number | string => exact ⟨rfl, rfl⟩

section Place

variable {good : Option Json → Prop} {value root : Json} {key name : String}
  {keys rest names : List String}

theorem eachBranch_place_cons_self :
    EachBranch good (key :: names) (place value (key :: rest) root) ↔
      ∀ inner ∈ spread root, EachBranch good names (written value rest (inner.member? key)) := by
  rw [eachBranch_cons_iff, spread_place, List.forall_mem_map]
  simp [member?_writeInto_self]

theorem eachBranch_place_cons_of_ne (differs : name ≠ key) :
    EachBranch good (name :: names) (place value (key :: rest) root) ↔
      EachBranch good (name :: names) root := by
  rw [eachBranch_cons_iff, eachBranch_cons_iff, spread_place, List.forall_mem_map]
  simp [member?_writeInto_of_ne differs]

/-- At the end of names that start the keys of a write stands what it makes of what stood there. -/
theorem eachBranch_place (full : names ≠ [])
    (before : EachBranch (fun old => good (some (written value rest old))) names root) :
    EachBranch good names (place value (names ++ rest) root) := by
  induction names generalizing root with
  | nil => exact absurd rfl full
  | cons name names ih =>
    apply eachBranch_place_cons_self.mpr
    intro inner inside
    obtain ⟨missing, present⟩ := eachBranch_cons_iff.mp before inner inside
    cases names with
    | nil =>
      cases found : inner.member? name with
      | none => exact missing found
      | some old => exact present old found
    | cons other names =>
      cases found : inner.member? name with
      | none =>
        have full := List.cons_ne_nil other names
        exact ih full (eachBranch_empty full (missing found))
      | some old => exact ih (List.cons_ne_nil _ _) (present old found)

/-- Other names lead to what they led to before. Where they led to nothing, they may lead into the
value of the write. -/
theorem eachBranch_place_of_not_prefix (apart : ¬ names <+: keys)
    (inside : good none → ∀ more, names = keys ++ more → EachBranch good more value)
    (before : EachBranch good names root) : EachBranch good names (place value keys root) := by
  induction keys generalizing names root with
  | nil => exact before
  | cons key rest ih =>
    cases names with
    | nil => exact absurd List.nil_prefix apart
    | cons name names =>
      by_cases same : name = key
      · subst same
        have apart' : ¬ names <+: rest := fun start =>
          apart (List.cons_prefix_cons.mpr ⟨rfl, start⟩)
        have inside' : good none → ∀ more, names = rest ++ more → EachBranch good more value :=
          fun nothing more whole => inside nothing more (congrArg (name :: ·) whole)
        have full : names ≠ [] := by
          rintro rfl
          exact apart' List.nil_prefix
        apply eachBranch_place_cons_self.mpr
        intro inner member
        obtain ⟨missing, present⟩ := eachBranch_cons_iff.mp before inner member
        cases rest with
        | nil =>
          cases found : inner.member? name with
          | none => exact inside' (missing found) names rfl
          | some old =>
            rw [written]
            split
            · exact present old found
            · next bare =>
              -- nothing could be read from a value that gives way
              obtain ⟨noItems, noMembers⟩ := scalar_of_not_isContainer bare
              exact inside' ((present old found).nothing full noItems noMembers) names rfl
        | cons other rest =>
          cases found : inner.member? name with
          | none => exact ih apart' inside' (eachBranch_empty full (missing found))
          | some old => exact ih apart' inside' (present old found)
      · exact (eachBranch_place_cons_of_ne same).mpr before

/-- What names lead to in every branch keeps a property that the write does not take away. -/
theorem everyBranch_place_of_keeps {good : Json → Prop} (full : names ≠ [])
    (keeps : ∀ rest, keys = names ++ rest → ∀ old, good old → good (written value rest (some old)))
    (before : EveryBranch good names root) : EveryBranch good names (place value keys root) := by
  rw [everyBranch_iff_eachBranch] at before ⊢
  by_cases start : names <+: keys
  · obtain ⟨rest, rfl⟩ := start
    refine eachBranch_place full (before.mono ?_)
    rintro _ ⟨old, rfl, holds⟩
    exact ⟨_, rfl, keeps rest rfl old holds⟩
  · refine eachBranch_place_of_not_prefix start ?_ before
    rintro ⟨_, missing, -⟩
    cases missing

/-- What could be read in every branch still can be. -/
theorem everyBranch_kept (reached : EveryBranch (fun _ => True) names root) (value : Json) :
    EveryBranch (fun _ => True) names (place value keys root) := by
  cases names with
  | nil => exact .here trivial
  | cons name names =>
    exact everyBranch_place_of_keeps (List.cons_ne_nil _ _) (fun _ _ _ _ => trivial) reached

/-! ## Where no array and no object stands -/

/-- A value that has no members, also behind arrays. -/
def Bare (value : Json) : Prop := ∀ names, SomeBranch names value → names = []

theorem bare_of_scalar {value : Json} (noItems : value.items? = none)
    (noMembers : value.members? = none) : Bare value := by
  intro names reached
  cases reached with
  | here => rfl
  | member => cases noMembers
  | element => cases noItems

theorem bare_string (text : String) : Bare (.string text) := bare_of_scalar rfl rfl

/-- There is no array and no object. -/
def Vacant (found : Option Json) : Prop := ∀ value ∈ found, isContainer value = false

theorem vacant_none : Vacant none := fun _ missing => nomatch missing

theorem vacant_of_scalar {value : Json} (scalar : isContainer value = false) :
    Vacant (some value) := by
  intro other same
  cases same
  exact scalar

/-- Behind a value without members stands nothing. -/
theorem Bare.eachBranch_vacant {value : Json} {names : List String} (bare : Bare value)
    (full : names ≠ []) : EachBranch Vacant names value :=
  eachBranch_of_not_someBranch (fun reached => full (bare names reached)) vacant_none

theorem eachBranch_vacant_of_scalar {value : Json} (scalar : isContainer value = false)
    (names : List String) : EachBranch Vacant names value := by
  by_cases full : names = []
  · subst full
    exact vacant_of_scalar scalar
  · obtain ⟨noItems, noMembers⟩ := @scalar_of_not_isContainer value (by simp [scalar])
    exact (bare_of_scalar noItems noMembers).eachBranch_vacant full

theorem written_of_vacant {old : Option Json} (vacant : Vacant old) :
    written value [] old = value := by
  cases old with
  | none => rfl
  | some old => rw [written, if_neg (by simp [vacant old rfl])]

/-- Where no array and no object stands, a write puts its value. -/
theorem eachBranch_place_of_vacant (full : names ≠ []) (vacant : EachBranch Vacant names root)
    (holds : good (some value)) : EachBranch good names (place value names root) := by
  have put : EachBranch (fun old => good (some (written value [] old))) names root := by
    refine vacant.mono fun old none => ?_
    rwa [written_of_vacant none]
  have placed := eachBranch_place full put
  rwa [List.append_nil] at placed

/-- No array and no object comes to stand at the end of names if the keys of a write do not lead
through them, and its value holds none there. -/
theorem vacant_place (full : names ≠ []) (start : names <+: keys → names = keys)
    (inside : ∀ more, names = keys ++ more → EachBranch Vacant more value)
    (before : EachBranch Vacant names root) : EachBranch Vacant names (place value keys root) := by
  by_cases leads : names <+: keys
  · obtain rfl := start leads
    exact eachBranch_place_of_vacant full before (inside [] (List.append_nil names).symm)
  · exact eachBranch_place_of_not_prefix leads (fun _ => inside) before

end Place

end MessageTemplate.Example
