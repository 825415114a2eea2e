import MessageTemplate.Proofs.Example.Filling
import MessageTemplate.Proofs.Json.Shape

/-! # What filling in keeps

Data that is filled in has all that it had before (`extends_fill`). Once a path has been filled in,
or something stands in its way, filling it in again changes nothing (`fill_fill`), and this stays so
whatever else is filled in (`fill_settled`). So data with stand-ins does not change when the same
stand-ins are added again. -/

namespace MessageTemplate.Example

open Json

/-! ## One step -/

/-- What filling in makes of the members of an object, given the first key and the others. -/
def fillMembers (value : Json) (key : String) : List String → Keyed Json → Keyed Json
  | [], members => Keyed.insertNew key value members
  | next :: rest, members =>
    Keyed.insert key (fill value (next :: rest) ((Keyed.get? key members).getD (.object []))) members

section Step

variable (value : Json) (key : String) (rest : List String)

theorem fill_array (items : List Json) :
    fill value (key :: rest) (.array items) = .array (items.map (fill value (key :: rest))) := by
  rw [fill_cons, throughArrays, throughItems_eq_map]
  exact congrArg Json.array (List.map_congr_left fun item _ => (fill_cons value key rest item).symm)

theorem fillInto_object (members : List (String × Json)) :
    fillInto value key rest (.object members) = .object (fillMembers value key rest members) := by
  cases rest <;> rfl

theorem fill_object (members : List (String × Json)) :
    fill value (key :: rest) (.object members) = .object (fillMembers value key rest members) := by
  rw [fill_cons, throughArrays_of_plain rfl, fillInto_object]

theorem fill_scalar (keys : List String) {root : Json} (noItems : root.items? = none)
    (noMembers : root.members? = none) : fill value keys root = root := by
  cases keys with
  | nil => rfl
  | cons key rest =>
    rw [fill_cons, throughArrays_of_plain noItems]
    cases root with
    | array => cases noItems
    | object => cases noMembers
    | null | bool | number | string => cases rest <;> rfl

theorem get?_fillMembers_self (members : List (String × Json)) :
    Keyed.get? key (fillMembers value key rest members) =
      some (filled value rest (Keyed.get? key members)) := by
  have found := @member?_fillInto_self value key rest (.object members) rfl
  rwa [fillInto_object] at found

theorem get?_fillMembers_of_ne {name : String} (differs : name ≠ key)
    (members : List (String × Json)) :
    Keyed.get? name (fillMembers value key rest members) = Keyed.get? name members := by
  have found := member?_fillInto_of_ne value key rest differs (.object members)
  rwa [fillInto_object] at found

/-- Filling in leaves the members as they are, or puts one under the first key. -/
theorem fillMembers_cases (members : List (String × Json)) :
    fillMembers value key rest members = members ∨
      ∃ next, fillMembers value key rest members = Keyed.insert key next members := by
  cases rest with
  | nil =>
    rw [fillMembers, Keyed.insertNew]
    split
    · exact .inl rfl
    · exact .inr ⟨value, rfl⟩
  | cons => exact .inr ⟨_, rfl⟩

end Step

/-- Filling in adds to what is there. -/
theorem extends_fill (value : Json) (keys : List String) (root : Json) :
    Extends root (fill value keys root) := by
  induction keys generalizing root with
  | nil => exact .refl root
  | cons key rest ih =>
    induction root using value_induction with
    | scalar root noItems noMembers =>
      rw [fill_scalar value _ noItems noMembers]
      exact .refl root
    | array items inside =>
      rw [fill_array]
      refine .array (List.length_map _).symm fun position item other here there => ?_
      rw [List.getElem?_map, here] at there
      cases there
      exact inside item (List.mem_of_getElem? here)
    | object members =>
      rw [fill_object]
      refine .of_members fun name old found => ?_
      by_cases same : name = key
      · subst same
        rw [get?_fillMembers_self, found]
        refine ⟨_, rfl, ?_⟩
        cases rest with
        | nil => exact .refl old
        | cons next rest => exact ih old
      · rw [get?_fillMembers_of_ne value key rest same]
        exact ⟨old, found, .refl old⟩

/-! ## What stays filled in -/

section Settled

variable {value other : Json} {key name : String} {keys names rest others : List String}
  {members : List (String × Json)}

theorem fillMembers_nil_eq_self_iff :
    fillMembers value key [] members = members ↔ Keyed.has key members := by
  rw [fillMembers, Keyed.insertNew]
  split
  · next present => simp [present]
  · next absent =>
    refine iff_of_false (fun same => absent ?_) absent
    rw [← same, Keyed.has, Keyed.get?_insert_self]
    rfl

/-- Filling in behind a key changes nothing exactly if there is a value under the key, filling in
changes nothing in it, and putting it there once more does not either. -/
theorem fillMembers_cons_eq_self_iff {next : String} :
    fillMembers value key (next :: rest) members = members ↔
      ∃ old, Keyed.get? key members = some old ∧ fill value (next :: rest) old = old ∧
        Keyed.insert key old members = members := by
  rw [fillMembers]
  constructor
  · intro same
    have again := congrArg (Keyed.get? key) same
    rw [Keyed.get?_insert_self] at again
    cases found : Keyed.get? key members with
    | none => cases again.trans found
    | some old =>
      rw [found, Option.getD_some] at again same
      have inside := Option.some.inj again
      exact ⟨old, rfl, inside, inside ▸ same⟩
  · rintro ⟨old, found, same, stays⟩
    rw [found, Option.getD_some, same, stays]

/-- What has been filled in is not filled in again. -/
theorem fill_fill (value : Json) (keys : List String) (root : Json) :
    fill value keys (fill value keys root) = fill value keys root := by
  induction keys generalizing root with
  | nil => rfl
  | cons key rest ih =>
    induction root using value_induction with
    | scalar root noItems noMembers =>
      rw [fill_scalar value _ noItems noMembers, fill_scalar value _ noItems noMembers]
    | array items inside =>
      rw [fill_array, fill_array, List.map_map]
      exact congrArg Json.array (List.map_congr_left inside)
    | object members =>
      rw [fill_object, fill_object]
      refine congrArg Json.object ?_
      cases rest with
      | nil =>
        rw [fillMembers_nil_eq_self_iff, Keyed.has, get?_fillMembers_self]
        rfl
      | cons next rest =>
        rw [fillMembers_cons_eq_self_iff]
        refine ⟨_, get?_fillMembers_self value key _ members, ih _, ?_⟩
        rw [fillMembers, Keyed.insert_insert]
        rfl

/-- Where filling in changes nothing, it changes nothing after something else has been filled in. -/
theorem fillMembers_settled
    (inside : ∀ names root, fill value rest root = root →
      fill value rest (fill other names root) = fill other names root)
    (settled : fillMembers value key rest members = members) :
    fillMembers value key rest (fillMembers other name others members) =
      fillMembers other name others members := by
  cases rest with
  | nil =>
    rw [fillMembers_nil_eq_self_iff] at settled ⊢
    by_cases shared : key = name
    · subst shared
      rw [Keyed.has, get?_fillMembers_self]
      rfl
    · rwa [Keyed.has, get?_fillMembers_of_ne other name others shared]
  | cons next rest =>
    rw [fillMembers_cons_eq_self_iff] at settled ⊢
    obtain ⟨old, found, same, stays⟩ := settled
    by_cases shared : key = name
    · subst shared
      refine ⟨_, get?_fillMembers_self other key others members, ?_, ?_⟩
      · rw [found]
        cases others with
        | nil => exact same
        | cons first others => exact inside _ old same
      · rw [found]
        cases others with
        | nil =>
          have present : Keyed.has key members := by simp [Keyed.has, found]
          rw [fillMembers_nil_eq_self_iff.mpr present]
          exact stays
        | cons first others =>
          rw [fillMembers, found, Keyed.insert_insert]
          rfl
    · refine ⟨old, ?_, same, ?_⟩
      · rw [get?_fillMembers_of_ne other name others shared, found]
      · rcases fillMembers_cases other name others members with kept | ⟨more, put⟩
        · rw [kept, stays]
        · rw [put, Keyed.insert_comm shared, stays]

theorem fill_settled {root : Json} (settled : fill value keys root = root) :
    fill value keys (fill other names root) = fill other names root := by
  induction keys generalizing names root with
  | nil => rfl
  | cons key rest ih =>
    cases names with
    | nil => exact settled
    | cons name others =>
      induction root using value_induction with
      | scalar root noItems noMembers => rwa [fill_scalar other _ noItems noMembers]
      | array items inside =>
        rw [fill_array, Json.array.injEq] at settled
        have each := List.map_inj_left.mp (settled.trans (List.map_id items).symm)
        rw [fill_array, fill_array, List.map_map]
        refine congrArg Json.array (List.map_congr_left fun item member => ?_)
        exact inside item member (each item member)
      | object members =>
        rw [fill_object, Json.object.injEq] at settled
        rw [fill_object, fill_object]
        exact congrArg Json.object (fillMembers_settled (fun _ _ => ih) settled)

end Settled

/-! ## Filling in one after the other -/

section Writes

variable {writes : List Write} {root : Json}

theorem extends_fillAll (writes : List Write) (root : Json) :
    Extends root (fillAll writes root) := by
  induction writes generalizing root with
  | nil => exact .refl root
  | cons write writes ih => exact (extends_fill write.2 write.1 root).trans (ih _)

theorem fillAll_settled {value : Json} {keys : List String}
    (settled : fill value keys root = root) :
    fill value keys (fillAll writes root) = fillAll writes root := by
  induction writes generalizing root with
  | nil => exact settled
  | cons write writes ih => exact ih (fill_settled settled)

theorem settled_of_mem {write : Write} (member : write ∈ writes) :
    fill write.2 write.1 (fillAll writes root) = fillAll writes root := by
  obtain ⟨before, after, rfl⟩ := List.append_of_mem member
  rw [fillAll, List.foldl_append, List.foldl_cons]
  exact fillAll_settled (fill_fill write.2 write.1 _)

theorem fillAll_eq_self (settled : ∀ write ∈ writes, fill write.2 write.1 root = root) :
    fillAll writes root = root := by
  induction writes with
  | nil => rfl
  | cons write writes ih =>
    obtain ⟨here, later⟩ := List.forall_mem_cons.mp settled
    rw [fillAll, List.foldl_cons, here]
    exact ih later

/-- What is filled in twice is filled in as once. -/
theorem fillAll_fillAll (writes : List Write) (root : Json) :
    fillAll writes (fillAll writes root) = fillAll writes root :=
  fillAll_eq_self fun _ => settled_of_mem

end Writes

namespace Builder

variable {builder : Builder}

/-- Data with stand-ins has all that it had before, each scalar, each item and each member at its
place. Each path is read from it in every branch, unless something on the way to it is neither an
object nor an array, and it does not change when the same stand-ins are added again. -/
theorem withStandIns_extends (members : List (String × Json)) (paths : List String) :
    Extends (.object members) (builder.withStandIns (.object members) paths) ∧
      (∀ path ∈ paths, ∀ keys, Path.keys? (Path.normalize path) = some keys →
        (EveryBranch (fun _ => True) keys (builder.withStandIns (.object members) paths) ↔
          Open keys (builder.withStandIns (.object members) paths))) ∧
      builder.withStandIns (builder.withStandIns (.object members) paths) paths =
        builder.withStandIns (.object members) paths := by
  have kept := extends_fillAll (builder.standInWrites paths) (.object members)
  have scalar := @scalar_of_mem_standInWrites builder paths
  rw [withStandIns_object]
  refine ⟨kept, fun path member keys read => ?_, ?_⟩
  · have write : (keys, builder.standIn (Path.normalize path) keys) ∈ builder.standInWrites paths :=
      mem_writesAt.mpr ⟨path, member, keys, read, rfl⟩
    exact everyBranch_fillAll_iff scalar write
  · obtain ⟨others, object⟩ : ∃ others,
        fillAll (builder.standInWrites paths) (.object members) = .object others := by
      generalize fillAll (builder.standInWrites paths) (.object members) = filled at kept
      cases kept with
      | scalar _ noMembers => cases noMembers
      | object => exact ⟨_, rfl⟩
    rw [object, withStandIns_object, ← object]
    exact fillAll_fillAll _ _

/-- A label is added to both items. One of them has a price, which has no parts. -/
theorem withStandIns_extends_items :
    Extends (.object [("items", .array [.object [("price", .null)], .object []])])
        ((standard "").withStandIns
          (.object [("items", .array [.object [("price", .null)], .object []])])
          ["items.price.net", "items[0].label"]) ∧
      EveryBranch (fun _ => True) ["items", "label"]
        ((standard "").withStandIns
          (.object [("items", .array [.object [("price", .null)], .object []])])
          ["items.price.net", "items[0].label"]) ∧
      ¬ EveryBranch (fun _ => True) ["items", "price", "net"]
        ((standard "").withStandIns
          (.object [("items", .array [.object [("price", .null)], .object []])])
          ["items.price.net", "items[0].label"]) := by
  obtain ⟨kept, each, -⟩ := @withStandIns_extends (standard "")
    [("items", .array [.object [("price", .null)], .object []])]
    ["items.price.net", "items[0].label"]
  refine ⟨kept, ?_, ?_⟩
  · refine (each "items[0].label" (by decide) _ (by decide +kernel)).mpr ?_
    decide +kernel
  · rw [each "items.price.net" (by decide) _ (by decide +kernel)]
    decide +kernel

end Builder

end MessageTemplate.Example
