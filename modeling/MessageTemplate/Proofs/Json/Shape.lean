import MessageTemplate.Json.Shape
import Mathlib.Data.List.Basic

/-! # Laws of shapes

A value has all that it has itself, and all that a value has that it has all of (`Extends.refl`,
`Extends.trans`). Arrays are uniform in a value if they are in what it holds. Putting a value in key
order gives one in order, and leaves such a value as it is (`inOrder_ordered`, `ordered_eq_self`). -/

namespace MessageTemplate.Json

/-- What holds of scalars, of arrays of values of which it holds, and of objects with such members,
holds of all values. -/
theorem value_induction {motive : Json → Prop} (value : Json)
    (scalar : ∀ value, value.items? = none → value.members? = none → motive value)
    (array : ∀ items, (∀ item ∈ items, motive item) → motive (.array items))
    (object : ∀ members, (∀ entry ∈ members, motive entry.2) → motive (.object members)) :
    motive value := by
  match value with
  | .array items => exact array items fun item _ => value_induction item scalar array object
  | .object members =>
    exact object members fun (name, next) _ => value_induction next scalar array object
  | .null | .bool _ | .number _ | .string _ => exact scalar _ rfl rfl
decreasing_by
  · decreasing_tactic
  · have := List.sizeOf_lt_of_mem ‹(name, next) ∈ members›
    simp only [Json.object.sizeOf_spec, Prod.mk.sizeOf_spec] at this ⊢
    omega

/-! ## What a value has of another one -/

namespace Extends

theorem of_members {members others : List (String × Json)}
    (kept : ∀ name value, Keyed.get? name members = some value →
      ∃ next, Keyed.get? name others = some next ∧ Extends value next) :
    Extends (.object members) (.object others) := by
  refine .object (fun name present => ?_) fun name value next here there => ?_
  · obtain ⟨value, found⟩ := Option.isSome_iff_exists.mp present
    obtain ⟨next, later, -⟩ := kept name value found
    exact Option.isSome_iff_exists.mpr ⟨next, later⟩
  · obtain ⟨last, found, extended⟩ := kept name value here
    cases there.symm.trans found
    exact extended

theorem refl (value : Json) : Extends value value := by
  induction value using value_induction with
  | scalar value noItems noMembers => exact .scalar noItems noMembers
  | array items ih =>
    refine .array rfl fun position item other here there => ?_
    cases here.symm.trans there
    exact ih item (List.mem_of_getElem? here)
  | object members ih =>
    exact of_members fun name value found =>
      ⟨value, found, ih (name, value) (Keyed.mem_of_get? found)⟩

theorem trans {first second third : Json} (one : Extends first second)
    (two : Extends second third) : Extends first third := by
  induction one generalizing third with
  | scalar => exact two
  | array length each ih =>
    cases two with
    | scalar noItems => cases noItems
    | array further eachLater =>
      refine .array (length.trans further) fun position item last here there => ?_
      obtain ⟨below, -⟩ := List.getElem?_eq_some_iff.mp here
      have between := List.getElem?_eq_getElem (length ▸ below)
      exact ih position item _ here between (eachLater position _ last between there)
  | object has each ih =>
    cases two with
    | scalar _ noMembers => cases noMembers
    | object further eachLater =>
      refine .object (fun name present => further name (has name present))
        fun name value last here there => ?_
      obtain ⟨next, between⟩ := Option.isSome_iff_exists.mp (has name (by simp [Keyed.has, here]))
      exact ih name value next here between (eachLater name next last between there)

end Extends

/-! ## Arrays at any depth -/

section Uniform

variable {limit : Nat} {items : List Json} {members : List (String × Json)} {value : Json}

theorem uniform_scalar (noItems : value.items? = none) (noMembers : value.members? = none) :
    Uniform limit value := by
  intro items inside
  cases inside with
  | self => cases noItems
  | item => cases noItems
  | member => cases noMembers

theorem uniform_array_iff :
    Uniform limit (.array items) ↔ items.length ≤ limit ∧
      (∀ item ∈ items, ∀ other ∈ items, item = other) ∧ ∀ item ∈ items, Uniform limit item := by
  constructor
  · intro uniform
    obtain ⟨short, same⟩ := uniform items .self
    exact ⟨short, same, fun item member deeper inside => uniform deeper (.item member inside)⟩
  · rintro ⟨short, same, each⟩ deeper inside
    cases inside with
    | self => exact ⟨short, same⟩
    | item member inside => exact each _ member deeper inside

theorem uniform_object_iff :
    Uniform limit (.object members) ↔ ∀ entry ∈ members, Uniform limit entry.2 := by
  constructor
  · intro uniform entry member items inside
    exact uniform items (.member member inside)
  · intro each items inside
    cases inside with
    | member member inside => exact each _ member items inside

theorem Uniform.of_members (uniform : Uniform limit value) :
    ∀ entry ∈ value.members?.getD [], Uniform limit entry.2 := by
  cases value with
  | object members => exact uniform_object_iff.mp uniform
  | null | bool | number | string | array => exact List.forall_mem_nil _

end Uniform

/-! ## What holds throughout a value -/

section Throughout

variable {good : Json → Prop} {items : List Json} {members : List (String × Json)} {value : Json}

theorem throughout_scalar_iff (noItems : value.items? = none) (noMembers : value.members? = none) :
    Throughout good value ↔ good value := by
  constructor
  · intro all
    exact all value .self
  · intro here inner inside
    cases inside with
    | self => exact here
    | item => cases noItems
    | member => cases noMembers

theorem throughout_array_iff :
    Throughout good (.array items) ↔
      good (.array items) ∧ ∀ item ∈ items, Throughout good item := by
  constructor
  · intro all
    exact ⟨all _ .self, fun item member inner inside => all inner (.item member inside)⟩
  · rintro ⟨here, each⟩ inner inside
    cases inside with
    | self => exact here
    | item member inside => exact each _ member inner inside

theorem throughout_object_iff :
    Throughout good (.object members) ↔
      good (.object members) ∧ ∀ entry ∈ members, Throughout good entry.2 := by
  constructor
  · intro all
    exact ⟨all _ .self, fun entry member inner inside => all inner (.member member inside)⟩
  · rintro ⟨here, each⟩ inner inside
    cases inside with
    | self => exact here
    | member member inside => exact each _ member inner inside

theorem inOrder_array_iff : InOrder (.array items) ↔ ∀ item ∈ items, InOrder item := by
  rw [InOrder, throughout_array_iff]
  exact and_iff_right nofun

theorem inOrder_object_iff :
    InOrder (.object members) ↔ Keyed.Sorted members ∧ ∀ entry ∈ members, InOrder entry.2 := by
  rw [InOrder, throughout_object_iff]
  simp only [members?, Option.mem_def, Option.some.injEq, forall_eq']
  rfl

theorem inOrder_scalar (noItems : value.items? = none) (noMembers : value.members? = none) :
    InOrder value := by
  refine (throughout_scalar_iff noItems noMembers).mpr fun members given => ?_
  cases noMembers.symm.trans given

theorem hasExactNumbers_array_iff :
    HasExactNumbers (.array items) ↔ ∀ item ∈ items, HasExactNumbers item := by
  rw [HasExactNumbers, throughout_array_iff]
  exact and_iff_right nofun

theorem hasExactNumbers_object_iff :
    HasExactNumbers (.object members) ↔ ∀ entry ∈ members, HasExactNumbers entry.2 := by
  rw [HasExactNumbers, throughout_object_iff]
  exact and_iff_right nofun

end Throughout

/-! ## Nesting -/

section Nesting

variable {limit : Nat} {items : List Json} {members : List (String × Json)}

theorem nestingOfItems_lt_iff :
    nestingOfItems items < limit ↔ 0 < limit ∧ ∀ item ∈ items, item.nesting < limit := by
  induction items with
  | nil => simp [nestingOfItems]
  | cons item rest ih =>
    rw [nestingOfItems, Nat.max_lt, ih, List.forall_mem_cons, and_left_comm]

theorem nestingOfMembers_lt_iff :
    nestingOfMembers members < limit ↔ 0 < limit ∧ ∀ entry ∈ members, entry.2.nesting < limit := by
  induction members with
  | nil => simp [nestingOfMembers]
  | cons entry rest ih =>
    rw [nestingOfMembers, Nat.max_lt, ih, List.forall_mem_cons, and_left_comm]

theorem nesting_array_le_iff :
    (array items).nesting ≤ limit ↔ 0 < limit ∧ ∀ item ∈ items, item.nesting < limit := by
  rw [nesting, Nat.succ_le_iff, nestingOfItems_lt_iff]

theorem nesting_object_le_iff :
    (object members).nesting ≤ limit ↔ 0 < limit ∧ ∀ entry ∈ members, entry.2.nesting < limit := by
  rw [nesting, Nat.succ_le_iff, nestingOfMembers_lt_iff]

end Nesting

/-! ## Key order -/

theorem orderedItems_eq_map (items : List Json) : orderedItems items = items.map ordered := by
  induction items with
  | nil => rfl
  | cons item rest ih => rw [orderedItems, ih, List.map_cons]

theorem orderedMembers_eq_map (members : List (String × Json)) :
    orderedMembers members = members.map fun entry => (entry.1, entry.2.ordered) := by
  induction members with
  | nil => rfl
  | cons entry rest ih => rw [orderedMembers, ih, List.map_cons]

theorem inOrder_ordered (value : Json) : value.ordered.InOrder := by
  induction value using value_induction with
  | scalar value noItems noMembers =>
    cases value with
    | array => cases noItems
    | object => cases noMembers
    | null | bool | number | string => exact inOrder_scalar rfl rfl
  | array items ih =>
    rw [ordered, orderedItems_eq_map, inOrder_array_iff]
    exact List.forall_mem_map.mpr ih
  | object members ih =>
    rw [ordered, orderedMembers_eq_map, inOrder_object_iff]
    refine ⟨Keyed.sorted_ofList _, fun entry member => ?_⟩
    obtain ⟨other, given, rfl⟩ := List.mem_map.mp (Keyed.mem_of_mem_ofList member)
    exact ih other given

/-- Putting a value in key order makes it nest no deeper. -/
theorem nesting_ordered_le (value : Json) : value.ordered.nesting ≤ value.nesting := by
  induction value using value_induction with
  | scalar value noItems noMembers =>
    cases value with
    | array => cases noItems
    | object => cases noMembers
    | null | bool | number | string => exact Nat.le_refl _
  | array items ih =>
    obtain ⟨positive, each⟩ := nesting_array_le_iff.mp (Nat.le_refl (array items).nesting)
    rw [ordered, orderedItems_eq_map, nesting_array_le_iff]
    refine ⟨positive, List.forall_mem_map.mpr fun item member => ?_⟩
    exact Nat.lt_of_le_of_lt (ih item member) (each item member)
  | object members ih =>
    obtain ⟨positive, each⟩ := nesting_object_le_iff.mp (Nat.le_refl (object members).nesting)
    rw [ordered, orderedMembers_eq_map, nesting_object_le_iff]
    refine ⟨positive, fun entry member => ?_⟩
    obtain ⟨other, given, rfl⟩ := List.mem_map.mp (Keyed.mem_of_mem_ofList member)
    exact Nat.lt_of_le_of_lt (ih other given) (each other given)

/-- A value in order is left as it is. -/
theorem ordered_eq_self {value : Json} (inOrder : value.InOrder) : value.ordered = value := by
  induction value using value_induction with
  | scalar value noItems noMembers =>
    cases value with
    | array => cases noItems
    | object => cases noMembers
    | null | bool | number | string => rfl
  | array items ih =>
    have each := inOrder_array_iff.mp inOrder
    rw [ordered, orderedItems_eq_map, List.map_congr_left fun item member => ih item member
      (each item member), List.map_id']
  | object members ih =>
    obtain ⟨sorted, each⟩ := inOrder_object_iff.mp inOrder
    have same : members.map (fun entry => (entry.1, entry.2.ordered)) = members := by
      rw [List.map_congr_left fun entry member => congrArg (entry.1, ·) (ih entry member
        (each entry member)), List.map_id']
    rw [ordered, orderedMembers_eq_map, same, Keyed.ofList_eq_self sorted]

end MessageTemplate.Json
