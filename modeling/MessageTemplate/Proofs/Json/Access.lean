import MessageTemplate.Json.Access

/-! # Reading through arrays

A name is read from the values that arrays come down to, which are none themselves. Both ways of
following names, into some branch and into all of them, are said by these values. In a value in
which no array is empty, what is found in every branch is found in some branch. -/

namespace MessageTemplate.Json

/-- What holds of all values but arrays, and of an array of values of which it holds, holds of all
values. -/
theorem array_induction {motive : Json → Prop} (value : Json)
    (plain : ∀ value, value.items? = none → motive value)
    (array : ∀ items, (∀ item ∈ items, motive item) → motive (.array items)) : motive value := by
  match value with
  | .array items => exact array items fun item _ => array_induction item plain array
  | .null | .bool _ | .number _ | .string _ | .object _ => exact plain _ rfl

mutual

/-- The values that a value comes down to if it is an array, or an array of arrays; otherwise the
value itself. -/
def spread : Json → List Json
  | .array items => spreadItems items
  | .null => [.null]
  | .bool value => [.bool value]
  | .number value => [.number value]
  | .string text => [.string text]
  | .object members => [.object members]

/-- `spread` of all items of an array. -/
def spreadItems : List Json → List Json
  | [] => []
  | item :: rest => spread item ++ spreadItems rest

end

theorem spread_array (items : List Json) : spread (.array items) = items.flatMap spread := by
  rw [spread]
  induction items with
  | nil => rfl
  | cons item rest ih => rw [spreadItems, ih, List.flatMap_cons]

theorem spread_of_plain {value : Json} (plain : value.items? = none) : spread value = [value] := by
  cases value with
  | array items => cases plain
  | null | bool | number | string | object => rfl

theorem items?_of_mem_spread {value inner : Json} (inside : inner ∈ spread value) :
    inner.items? = none := by
  induction value using array_induction with
  | plain value plain =>
    rw [spread_of_plain plain, List.mem_singleton] at inside
    rwa [inside]
  | array items ih =>
    rw [spread_array] at inside
    obtain ⟨item, present, inside⟩ := List.mem_flatMap.mp inside
    exact ih item present inside

/-- What holds of an array if it holds of its elements holds of a value if it holds of the values
that it comes down to. -/
theorem forall_spread_iff {good : Json → Prop}
    (elements : ∀ items, good (.array items) ↔ ∀ item ∈ items, good item) (value : Json) :
    good value ↔ ∀ inner ∈ spread value, good inner := by
  induction value using array_induction with
  | plain value plain => simp [spread_of_plain plain]
  | array items ih =>
    rw [elements, spread_array, List.forall_mem_flatMap]
    exact forall₂_congr ih

/-! ## Branches -/

theorem someBranch_cons_of_plain {value : Json} (plain : value.items? = none) {name : String}
    {rest : List String} :
    SomeBranch (name :: rest) value ↔
      ∃ next, value.member? name = some next ∧ SomeBranch rest next := by
  constructor
  · intro reached
    cases reached with
    | member found later => exact ⟨_, found, later⟩
    | element => cases plain
  · rintro ⟨next, found, later⟩
    cases value with
    | object members => exact .member found later
    | null | bool | number | string | array => cases found

theorem someBranch_cons_iff {value : Json} {name : String} {rest : List String} :
    SomeBranch (name :: rest) value ↔
      ∃ inner ∈ spread value, ∃ next, inner.member? name = some next ∧ SomeBranch rest next := by
  induction value using array_induction with
  | plain value plain => simp [spread_of_plain plain, someBranch_cons_of_plain plain]
  | array items ih =>
    have items_iff : SomeBranch (name :: rest) (.array items) ↔
        ∃ item ∈ items, SomeBranch (name :: rest) item := by
      constructor
      · intro reached
        cases reached with
        | element present later => exact ⟨_, present, later⟩
      · rintro ⟨item, present, later⟩
        exact .element present later
    rw [items_iff, spread_array]
    constructor
    · rintro ⟨item, present, later⟩
      obtain ⟨inner, inside, found⟩ := (ih item present).mp later
      exact ⟨inner, List.mem_flatMap.mpr ⟨item, present, inside⟩, found⟩
    · rintro ⟨inner, member, found⟩
      obtain ⟨item, present, inside⟩ := List.mem_flatMap.mp member
      exact ⟨item, present, (ih item present).mpr ⟨inner, inside, found⟩⟩

theorem everyBranch_cons_of_plain {good : Json → Prop} {value : Json} (plain : value.items? = none)
    {name : String} {rest : List String} :
    EveryBranch good (name :: rest) value ↔
      ∃ next, value.member? name = some next ∧ EveryBranch good rest next := by
  constructor
  · intro reached
    cases reached with
    | member found later => exact ⟨_, found, later⟩
    | elements => cases plain
  · rintro ⟨next, found, later⟩
    cases value with
    | object members => exact .member found later
    | null | bool | number | string | array => cases found

theorem everyBranch_cons_iff {good : Json → Prop} {value : Json} {name : String}
    {rest : List String} :
    EveryBranch good (name :: rest) value ↔
      ∀ inner ∈ spread value,
        ∃ next, inner.member? name = some next ∧ EveryBranch good rest next := by
  have elements : ∀ items, EveryBranch good (name :: rest) (.array items) ↔ ∀ item ∈ items, EveryBranch good (name :: rest) item := by
    intro items
    constructor
    · intro reads
      cases reads with
      | elements all => exact all
    · exact .elements
  rw [forall_spread_iff elements]
  exact forall₂_congr fun inner inside => everyBranch_cons_of_plain (items?_of_mem_spread inside)

theorem someBranch_empty {names : List String} (reached : SomeBranch names (.object [])) :
    names = [] := by
  cases names with
  | nil => rfl
  | cons name names =>
    obtain ⟨next, found, -⟩ := (someBranch_cons_of_plain rfl).mp reached
    cases found

/-- Names lead on from what other names lead to. -/
theorem EveryBranch.append {good : Json → Prop} {names more : List String} {value : Json}
    (reached : EveryBranch (fun next => EveryBranch good more next) names value) :
    EveryBranch good (names ++ more) value := by
  induction names generalizing value with
  | nil =>
    cases reached with
    | here good => exact good
  | cons name names ih =>
    apply everyBranch_cons_iff.mpr
    intro inner inside
    obtain ⟨next, found, later⟩ := everyBranch_cons_iff.mp reached inner inside
    exact ⟨next, found, ih later⟩

theorem EveryBranch.of_isPrefix {names longer : List String} {value : Json}
    (reached : EveryBranch (fun _ => True) longer value) (start : names <+: longer) :
    EveryBranch (fun _ => True) names value := by
  induction names generalizing longer value with
  | nil => exact .here trivial
  | cons name names ih =>
    obtain ⟨others, rfl⟩ := start
    apply everyBranch_cons_iff.mpr
    intro inner inside
    obtain ⟨next, found, later⟩ := everyBranch_cons_iff.mp reached inner inside
    exact ⟨next, found, ih later (List.prefix_append _ _)⟩

/-- Whether names lead in every branch to a value with a property. -/
def readsTo (good : Json → Bool) : List String → Json → Bool
  | [], value => good value
  | name :: rest, value =>
    (spread value).all fun inner => (inner.member? name).any (readsTo good rest)

theorem everyBranch_iff_readsTo {good : Json → Bool} {names : List String} {value : Json} :
    EveryBranch (fun found => good found) names value ↔ readsTo good names value := by
  induction names generalizing value with
  | nil =>
    constructor
    · intro reached
      cases reached with
      | here holds => exact holds
    · intro holds
      exact .here holds
  | cons name names ih => simp [everyBranch_cons_iff, readsTo, ih, Option.any_eq_true]

instance (good : Json → Prop) [DecidablePred good] (names : List String) (value : Json) :
    Decidable (EveryBranch good names value) :=
  decidable_of_iff (readsTo (fun found => decide (good found)) names value)
    (by simp [← everyBranch_iff_readsTo])

/-! ## Open chains -/

theorem open_cons_of_plain {value : Json} (plain : value.items? = none) {name : String}
    {rest : List String} :
    Open (name :: rest) value ↔
      value.isObject ∧ ∀ next, value.member? name = some next → Open rest next := by
  constructor
  · intro passes
    cases passes with
    | object inside => exact ⟨rfl, inside⟩
    | elements => cases plain
  · rintro ⟨object, inside⟩
    cases value with
    | object members => exact .object inside
    | null | bool | number | string | array => cases object

theorem open_cons_iff {value : Json} {name : String} {rest : List String} :
    Open (name :: rest) value ↔
      ∀ inner ∈ spread value,
        inner.isObject ∧ ∀ next, inner.member? name = some next → Open rest next := by
  have elements : ∀ items, Open (name :: rest) (.array items) ↔ ∀ item ∈ items, Open (name :: rest) item := by
    intro items
    constructor
    · intro reads
      cases reads with
      | elements all => exact all
    · exact .elements
  rw [forall_spread_iff elements]
  exact forall₂_congr fun inner inside => open_cons_of_plain (items?_of_mem_spread inside)

/-- Whether a chain of names is open. -/
def isOpen : List String → Json → Bool
  | [], _ => true
  | name :: rest, value =>
    (spread value).all fun inner => inner.isObject && (inner.member? name).all (isOpen rest)

theorem open_iff_isOpen {names : List String} {value : Json} :
    Open names value ↔ isOpen names value := by
  induction names generalizing value with
  | nil => exact ⟨fun _ => rfl, fun _ => .here⟩
  | cons name names ih => simp [open_cons_iff, isOpen, ih, Option.all_eq_true]

instance (names : List String) (value : Json) : Decidable (Open names value) :=
  decidable_of_iff _ open_iff_isOpen.symm

/-- Names that are read in every branch are open. -/
theorem EveryBranch.opens {good : Json → Prop} {names : List String} {value : Json}
    (reached : EveryBranch good names value) : Open names value := by
  induction names generalizing value with
  | nil => exact .here
  | cons name names ih =>
    apply open_cons_iff.mpr
    intro inner inside
    obtain ⟨next, found, later⟩ := everyBranch_cons_iff.mp reached inner inside
    cases inner with
    | object members =>
      refine ⟨rfl, fun other same => ?_⟩
      cases found.symm.trans same
      exact ih later
    | null | bool | number | string | array => cases found

theorem Open.of_isPrefix {names longer : List String} {value : Json} (passes : Open longer value)
    (start : names <+: longer) : Open names value := by
  induction names generalizing longer value with
  | nil => exact .here
  | cons name names ih =>
    obtain ⟨others, rfl⟩ := start
    apply open_cons_iff.mpr
    intro inner inside
    obtain ⟨object, further⟩ := open_cons_iff.mp passes inner inside
    exact ⟨object, fun next found => ih (further next found) (List.prefix_append _ _)⟩

theorem open_empty (names : List String) : Open names (.object []) := by
  cases names with
  | nil => exact .here
  | cons => exact .object fun _ missing => nomatch missing

theorem open_scalar_iff {names : List String} {value : Json} (noItems : value.items? = none)
    (noMembers : value.members? = none) : Open names value ↔ names = [] := by
  constructor
  · intro passes
    cases passes with
    | here => rfl
    | object => cases noMembers
    | elements => cases noItems
  · rintro rfl
    exact .here

/-! ## Reading segments -/

theorem readable_key_of_plain {value : Json} (plain : value.items? = none) {name : String}
    {rest : List Segment} :
    Readable (.key name :: rest) value ↔
      ∃ next, value.member? name = some next ∧ Readable rest next := by
  constructor
  · intro reads
    cases reads with
    | member found later => exact ⟨_, found, later⟩
    | elements => cases plain
  · rintro ⟨next, found, later⟩
    cases value with
    | object members => exact .member found later
    | null | bool | number | string | array => cases found

theorem readable_key_iff {value : Json} {name : String} {rest : List Segment} :
    Readable (.key name :: rest) value ↔
      ∀ inner ∈ spread value, ∃ next, inner.member? name = some next ∧ Readable rest next := by
  have elements : ∀ items, Readable (.key name :: rest) (.array items) ↔ ∀ item ∈ items, Readable (.key name :: rest) item := by
    intro items
    constructor
    · intro reads
      cases reads with
      | elements all => exact all
    · exact .elements
  rw [forall_spread_iff elements]
  exact forall₂_congr fun inner inside => readable_key_of_plain (items?_of_mem_spread inside)

theorem readable_index_iff {value : Json} {position : Nat} {rest : List Segment} :
    Readable (.index position :: rest) value ↔
      ∃ items, value.items? = some items ∧ ∃ item, items[position]? = some item ∧
        Readable rest item := by
  constructor
  · intro reads
    cases reads with
    | position found later => exact ⟨_, rfl, _, found, later⟩
  · rintro ⟨items, array, item, found, later⟩
    cases value with
    | array => cases array; exact .position found later
    | null | bool | number | string | object => cases array

/-- Whether segments can be read one by one. -/
def readsSteps : List Segment → Json → Bool
  | [], _ => true
  | .key name :: rest, value =>
    (spread value).all fun inner => (inner.member? name).any (readsSteps rest)
  | .index position :: rest, value =>
    value.items?.any fun items => (items[position]?).any (readsSteps rest)

theorem readable_iff_readsSteps {segments : List Segment} {value : Json} :
    Readable segments value ↔ readsSteps segments value := by
  induction segments generalizing value with
  | nil => exact ⟨fun _ => rfl, fun _ => .here⟩
  | cons segment rest ih =>
    cases segment with
    | key name => simp [readable_key_iff, readsSteps, ih, Option.any_eq_true]
    | index position => simp [readable_index_iff, readsSteps, ih, Option.any_eq_true]

instance (segments : List Segment) (value : Json) : Decidable (Readable segments value) :=
  decidable_of_iff _ readable_iff_readsSteps.symm

/-! ## Values without empty arrays -/

/-- No array in a value is empty. -/
inductive Full : Json → Prop where
  | scalar {value : Json} : value.items? = none → value.members? = none → Full value
  | array {items : List Json} : items ≠ [] → (∀ item ∈ items, Full item) → Full (.array items)
  | object {members : List (String × Json)} :
      (∀ name value, Keyed.get? name members = some value → Full value) → Full (.object members)

theorem full_of_plain {value : Json} (plain : value.items? = none)
    (all : ∀ name next, value.member? name = some next → Full next) : Full value := by
  cases value with
  | object members => exact .object all
  | array items => cases plain
  | null | bool | number | string => exact .scalar rfl rfl

theorem Full.of_mem_items {value item : Json} {items : List Json} (full : Full value)
    (array : value.items? = some items) (member : item ∈ items) : Full item := by
  cases full with
  | scalar plain => cases plain.symm.trans array
  | array _ all =>
    cases array
    exact all item member
  | object => cases array

theorem Full.of_mem_spread {value inner : Json} (full : Full value)
    (inside : inner ∈ spread value) : Full inner := by
  induction value using array_induction with
  | plain value plain =>
    rw [spread_of_plain plain, List.mem_singleton] at inside
    rwa [inside]
  | array items ih =>
    cases full with
    | scalar plain => cases plain
    | array _ all =>
      rw [spread_array] at inside
      obtain ⟨item, present, inside⟩ := List.mem_flatMap.mp inside
      exact ih item present (all item present) inside

theorem Full.spread_ne_nil {value : Json} (full : Full value) : spread value ≠ [] := by
  induction value using array_induction with
  | plain value plain => simp [spread_of_plain plain]
  | array items ih =>
    cases full with
    | scalar plain => cases plain
    | array nonempty all =>
      obtain ⟨item, present⟩ := List.exists_mem_of_ne_nil items nonempty
      obtain ⟨inner, inside⟩ := List.exists_mem_of_ne_nil _ (ih item present (all item present))
      rw [spread_array]
      exact List.ne_nil_of_mem (List.mem_flatMap.mpr ⟨item, present, inside⟩)

theorem Full.of_member? {value next : Json} {name : String} (full : Full value)
    (found : value.member? name = some next) : Full next := by
  cases value with
  | object members =>
    cases full with
    | scalar _ plain => cases plain
    | object all => exact all name next found
  | null | bool | number | string | array => cases found

/-- In a value without empty arrays, what is found in every branch is found in some branch. -/
theorem EveryBranch.someBranch_append {good : Json → Prop} {names more : List String} {value : Json}
    (reached : EveryBranch good names value) (full : Full value)
    (further : ∀ next, good next → SomeBranch more next) : SomeBranch (names ++ more) value := by
  induction names generalizing value with
  | nil =>
    cases reached with
    | here good => exact further _ good
  | cons name names ih =>
    obtain ⟨inner, inside⟩ := List.exists_mem_of_ne_nil _ full.spread_ne_nil
    obtain ⟨next, found, later⟩ := everyBranch_cons_iff.mp reached inner inside
    exact someBranch_cons_iff.mpr
      ⟨inner, inside, next, found, ih later ((full.of_mem_spread inside).of_member? found)⟩

theorem EveryBranch.someBranch {good : Json → Prop} {names : List String} {value : Json}
    (reached : EveryBranch good names value) (full : Full value) : SomeBranch names value := by
  have : SomeBranch (names ++ []) value := reached.someBranch_append full fun _ _ => .here
  rwa [List.append_nil] at this

end MessageTemplate.Json
