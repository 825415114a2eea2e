import MessageTemplate.Example.Place
import MessageTemplate.Proofs.Json.Access
import Mathlib.Data.List.Basic

/-! # What a write changes

A write is made in every branch, so that its keys can be read in every branch. Nothing is added but
its keys and what its value holds, and arrays stay full. -/

namespace MessageTemplate.Example

open Json

/-! ## One step of a write -/

/-- What a write makes of a value that is no array, given the first key and the others. -/
def writeInto (value : Json) (key : String) : List String → Json → Json
  | [] => putLeaf key value
  | next :: rest => putChild key (place value (next :: rest))

/-- What stands under the first key after a write, given what stood there before. -/
def written (value : Json) : List String → Option Json → Json
  | [], some old => if isContainer old then old else value
  | [], none => value
  | next :: rest, old => place value (next :: rest) (old.getD (.object []))

theorem place_cons (value : Json) (key : String) (rest : List String) (root : Json) :
    place value (key :: rest) root = throughArrays (writeInto value key rest) root := by
  cases rest <;> rfl

theorem get?_members (key : String) (value : Json) :
    Keyed.get? key (value.members?.getD []) = value.member? key := by
  cases value <;> rfl

theorem items?_writeInto (value : Json) (key : String) (rest : List String) (root : Json) :
    (writeInto value key rest root).items? = none := by
  cases rest with
  | nil =>
    simp only [writeInto, putLeaf]
    split
    · rfl
    · rfl
  | cons next rest => rfl

theorem member?_writeInto_self (value : Json) (key : String) (rest : List String) (root : Json) :
    (writeInto value key rest root).member? key = some (written value rest (root.member? key)) := by
  cases rest with
  | nil =>
    simp only [writeInto, putLeaf, get?_members]
    cases found : root.member? key with
    | none => simp [written, member?]
    | some old =>
      cases holds : isContainer old with
      | true =>
        simp only [Option.any_some, holds, ↓reduceIte, written]
        exact (get?_members key root).trans found
      | false => simp [written, holds, member?]
  | cons next rest => simp [writeInto, putChild, written, member?, get?_members]

theorem member?_writeInto_of_ne {key name : String} (differs : name ≠ key) (value : Json)
    (rest : List String) (root : Json) :
    (writeInto value key rest root).member? name = root.member? name := by
  cases rest with
  | nil =>
    simp only [writeInto, putLeaf]
    split
    · exact get?_members name root
    · simp only [member?, Keyed.get?_insert_of_ne _ _ differs, get?_members]
  | cons next rest =>
    simp only [writeInto, putChild, member?, Keyed.get?_insert_of_ne _ _ differs, get?_members]

theorem throughItems_eq_map (change : Json → Json) (items : List Json) :
    throughItems change items = items.map (throughArrays change) := by
  induction items with
  | nil => rfl
  | cons item rest ih => rw [throughItems, ih, List.map_cons]

theorem throughArrays_of_plain {value : Json} (plain : value.items? = none) (change : Json → Json) :
    throughArrays change value = change value := by
  cases value with
  | array items => cases plain
  | null | bool | number | string | object => rfl

/-- Where something is written, there is an object or an array of them afterwards. -/
theorem isContainer_place_cons (value : Json) (key : String) (rest : List String) (root : Json) :
    isContainer (place value (key :: rest) root) := by
  rw [place_cons]
  cases root with
  | array items => rfl
  | null | bool | number | string | object =>
    rw [throughArrays_of_plain rfl]
    cases rest with
    | nil =>
      rw [writeInto, putLeaf]
      split
      · rfl
      · rfl
    | cons => rfl

theorem spread_throughArrays {change : Json → Json}
    (plain : ∀ value, value.items? = none → (change value).items? = none) (value : Json) :
    spread (throughArrays change value) = (spread value).map change := by
  induction value using array_induction with
  | plain value here =>
    rw [throughArrays_of_plain here, spread_of_plain (plain value here), spread_of_plain here,
      List.map_singleton]
  | array items ih =>
    rw [throughArrays, throughItems_eq_map, spread_array, spread_array, List.flatMap_map,
      List.map_flatMap]
    exact List.flatMap_congr ih

theorem spread_place (value : Json) (key : String) (rest : List String) (root : Json) :
    spread (place value (key :: rest) root) = (spread root).map (writeInto value key rest) := by
  rw [place_cons, spread_throughArrays fun inner _ => items?_writeInto value key rest inner]

/-! ## What can be read after a write -/

theorem someBranch_place_cons_self {value root : Json} {key : String} {rest names : List String} :
    SomeBranch (key :: names) (place value (key :: rest) root) ↔
      ∃ inner ∈ spread root, SomeBranch names (written value rest (inner.member? key)) := by
  rw [someBranch_cons_iff, spread_place]
  constructor
  · rintro ⟨changed, member, next, found, later⟩
    obtain ⟨inner, inside, rfl⟩ := List.mem_map.mp member
    rw [member?_writeInto_self] at found
    cases found
    exact ⟨inner, inside, later⟩
  · rintro ⟨inner, inside, later⟩
    exact ⟨_, List.mem_map_of_mem inside, _, member?_writeInto_self value key rest inner, later⟩

theorem someBranch_place_cons_of_ne {value root : Json} {key name : String}
    {rest names : List String} (differs : name ≠ key) :
    SomeBranch (name :: names) (place value (key :: rest) root) ↔
      SomeBranch (name :: names) root := by
  rw [someBranch_cons_iff, someBranch_cons_iff, spread_place]
  simp [member?_writeInto_of_ne differs]

theorem everyBranch_place_cons_self {good : Json → Prop} {value root : Json} {key : String}
    {rest names : List String} :
    EveryBranch good (key :: names) (place value (key :: rest) root) ↔
      ∀ inner ∈ spread root, EveryBranch good names (written value rest (inner.member? key)) := by
  rw [everyBranch_cons_iff, spread_place]
  simp [member?_writeInto_self]

/-- Nothing is added but the keys and what can be read from the value. -/
theorem someBranch_of_place {names keys : List String} {value root : Json}
    (reached : SomeBranch names (place value keys root)) :
    SomeBranch names root ∨ names <+: keys ∨
      ∃ more, names = keys ++ more ∧ SomeBranch more value := by
  induction keys generalizing names root with
  | nil => exact .inl reached
  | cons key rest ih =>
    cases names with
    | nil => exact .inl .here
    | cons name names =>
      by_cases same : name = key
      · subst same
        obtain ⟨inner, inside, later⟩ := someBranch_place_cons_self.mp reached
        cases rest with
        | nil =>
          cases found : inner.member? name with
          | none =>
            rw [found] at later
            exact .inr (.inr ⟨names, rfl, later⟩)
          | some old =>
            rw [found, written] at later
            split at later
            · exact .inl (someBranch_cons_iff.mpr ⟨inner, inside, old, found, later⟩)
            · exact .inr (.inr ⟨names, rfl, later⟩)
        | cons other rest =>
          rcases ih later with before | inKeys | ⟨more, rfl, inValue⟩
          · cases found : inner.member? name with
            | none =>
              rw [found] at before
              rw [someBranch_empty before]
              exact .inr (.inl (List.cons_prefix_cons.mpr ⟨rfl, List.nil_prefix⟩))
            | some old =>
              rw [found] at before
              exact .inl (someBranch_cons_iff.mpr ⟨inner, inside, old, found, before⟩)
          · exact .inr (.inl (List.cons_prefix_cons.mpr ⟨rfl, inKeys⟩))
          · exact .inr (.inr ⟨more, rfl, inValue⟩)
      · exact .inl ((someBranch_place_cons_of_ne same).mp reached)

/-- The keys can be read in every branch. -/
theorem everyBranch_place {keys : List String} (value root : Json) :
    EveryBranch (fun _ => True) keys (place value keys root) := by
  induction keys generalizing root with
  | nil => exact .here trivial
  | cons key rest ih =>
    apply everyBranch_place_cons_self.mpr
    intro inner _
    cases rest with
    | nil => exact .here trivial
    | cons next rest => exact ih _

/-! ## Arrays stay full -/

theorem full_throughArrays {change : Json → Json} {root : Json} (full : Full root)
    (changed : ∀ value, Full value → Full (change value)) : Full (throughArrays change root) := by
  induction root using array_induction with
  | plain value plain =>
    rw [throughArrays_of_plain plain]
    exact changed value full
  | array items ih =>
    rw [throughArrays, throughItems_eq_map]
    cases full with
    | scalar plain => cases plain
    | array nonempty all =>
      apply Full.array (by simpa using nonempty)
      intro item member
      obtain ⟨old, present, rfl⟩ := List.mem_map.mp member
      exact ih old present (all old present)

theorem full_place {keys : List String} {value root : Json} (fullValue : Full value)
    (full : Full root) : Full (place value keys root) := by
  induction keys generalizing root with
  | nil => exact full
  | cons key rest ih =>
    rw [place_cons]
    apply full_throughArrays full
    intro inner fullInner
    refine full_of_plain (items?_writeInto value key rest inner) fun name next found => ?_
    by_cases same : name = key
    · subst same
      rw [member?_writeInto_self] at found
      cases found
      cases rest with
      | nil =>
        cases old : inner.member? name with
        | none => exact fullValue
        | some old' =>
          rw [written]
          split
          · exact fullInner.of_member? old
          · exact fullValue
      | cons other rest =>
        refine ih ?_
        cases old : inner.member? name with
        | none => exact .object fun name value missing => by cases missing
        | some old' => exact fullInner.of_member? old
    · rw [member?_writeInto_of_ne same] at found
      exact fullInner.of_member? found

end MessageTemplate.Example
