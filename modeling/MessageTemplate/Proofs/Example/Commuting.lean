import MessageTemplate.Proofs.Example.Writes
import MessageTemplate.Proofs.Json.Shape

/-! # Writes in either order

Two writes may be made in either order, unless the keys of one lead to the keys of the other one
(`place_comm`). Even then they may be, as long as the write that ends first puts a value there that
is neither an object nor an array: it gives way to the other write when it is made before, and
leaves what is there when it is made after. So writes that yield to each other in this way may be
made in any order (`placeAll_perm`). -/

namespace MessageTemplate.Example

open Json

/-! ## One step -/

/-- What a write makes of the members of an object, given the first key and the others. -/
def placeMembers (value : Json) (key : String) (rest : List String) (members : Keyed Json) :
    Keyed Json :=
  if rest = [] ∧ (Keyed.get? key members).any isContainer then members
  else Keyed.insert key (written value rest (Keyed.get? key members)) members

section Step

variable (value : Json) (key : String) (rest : List String)

theorem writeInto_eq (root : Json) :
    writeInto value key rest root =
      .object (placeMembers value key rest (root.members?.getD [])) := by
  cases rest with
  | nil =>
    rw [writeInto, putLeaf, placeMembers]
    cases found : Keyed.get? key (root.members?.getD []) with
    | none => simp [written]
    | some old =>
      cases holds : isContainer old with
      | true => simp [holds]
      | false => simp [holds, written]
  | cons next rest => simp [writeInto, putChild, placeMembers, written]

theorem place_array (items : List Json) :
    place value (key :: rest) (.array items) = .array (items.map (place value (key :: rest))) := by
  rw [place_cons, throughArrays, throughItems_eq_map]
  refine congrArg Json.array (List.map_congr_left fun item _ => ?_)
  exact (place_cons value key rest item).symm

theorem place_of_plain {root : Json} (plain : root.items? = none) :
    place value (key :: rest) root =
      .object (placeMembers value key rest (root.members?.getD [])) := by
  rw [place_cons, throughArrays_of_plain plain, writeInto_eq]

/-- A write treats a value that is neither an object nor an array like an empty object. -/
theorem place_of_scalar {root : Json} (scalar : isContainer root = false) :
    place value (key :: rest) root = place value (key :: rest) (.object []) := by
  cases root with
  | array => cases scalar
  | object => cases scalar
  | null | bool | number | string => rw [place_of_plain _ _ _ rfl, place_of_plain _ _ _ rfl]; rfl

theorem get?_placeMembers_self (members : List (String × Json)) :
    Keyed.get? key (placeMembers value key rest members) =
      some (written value rest (Keyed.get? key members)) := by
  have found := member?_writeInto_self value key rest (.object members)
  rwa [writeInto_eq] at found

theorem get?_placeMembers_of_ne {name : String} (differs : name ≠ key)
    (members : List (String × Json)) :
    Keyed.get? name (placeMembers value key rest members) = Keyed.get? name members := by
  have found := member?_writeInto_of_ne differs value rest (.object members)
  rwa [writeInto_eq] at found

end Step

/-! ## Two writes -/

/-- A write ends before the keys of another one, with a value that is neither an object nor an
array, if its keys lead there. -/
def Yields (write other : Write) : Prop :=
  write.1 <+: other.1 → write.1 ≠ other.1 ∧ isContainer write.2 = false

section Two

variable {value next : Json} {key name : String} {keys names rest more : List String}
  {members : List (String × Json)}

theorem placeMembers_comm_of_ne (differs : key ≠ name) :
    placeMembers value key rest (placeMembers next name more members) =
      placeMembers next name more (placeMembers value key rest members) := by
  conv_lhs => rw [placeMembers, get?_placeMembers_of_ne next name more differs]
  conv_rhs => rw [placeMembers, get?_placeMembers_of_ne value key rest differs.symm]
  rw [placeMembers, placeMembers]
  split_ifs with kept stays
  · rfl
  · rfl
  · rfl
  · exact Keyed.insert_comm differs _ _

/-- A value that is neither an object nor an array gives way to a write behind it. -/
theorem placeMembers_leaf_comm (scalar : isContainer value = false) (further : more ≠ []) :
    placeMembers value key [] (placeMembers next key more members) =
      placeMembers next key more (placeMembers value key [] members) := by
  obtain ⟨first, more, rfl⟩ := List.exists_cons_of_ne_nil further
  have kept : placeMembers value key [] (placeMembers next key (first :: more) members) =
      placeMembers next key (first :: more) members := by
    rw [placeMembers, get?_placeMembers_self, Option.any_some, written]
    exact if_pos ⟨rfl, isContainer_place_cons _ _ _ _⟩
  rw [kept]
  by_cases there : (Keyed.get? key members).any isContainer
  · have stays : placeMembers value key [] members = members := if_pos ⟨rfl, there⟩
    rw [stays]
  · have vacant : Vacant (Keyed.get? key members) := by
      intro old found
      rw [Option.mem_def.mp found] at there
      simpa using there
    have put : placeMembers value key [] members = Keyed.insert key value members := by
      rw [placeMembers, if_neg fun both => there both.2, written_of_vacant vacant]
    -- the write behind the key treats the value like what stood there before
    have same : written next (first :: more) (some value) =
        written next (first :: more) (Keyed.get? key members) := by
      cases found : Keyed.get? key members with
      | none => exact place_of_scalar next first more scalar
      | some old =>
        exact (place_of_scalar next first more scalar).trans
          (place_of_scalar next first more (vacant old found)).symm
    rw [put, placeMembers, if_neg (by simp), placeMembers, if_neg (by simp), Keyed.get?_insert_self,
      same, Keyed.insert_insert]

theorem placeMembers_comm_self (keysFull : rest ≠ []) (namesFull : more ≠ [])
    (inside : ∀ root,
      place value rest (place next more root) = place next more (place value rest root)) :
    placeMembers value key rest (placeMembers next key more members) =
      placeMembers next key more (placeMembers value key rest members) := by
  obtain ⟨first, rest, rfl⟩ := List.exists_cons_of_ne_nil keysFull
  obtain ⟨second, more, rfl⟩ := List.exists_cons_of_ne_nil namesFull
  have put : ∀ value first rest members, placeMembers value key (first :: rest) members =
      Keyed.insert key (written value (first :: rest) (Keyed.get? key members)) members :=
    fun _ _ _ _ => if_neg (by simp)
  rw [put, get?_placeMembers_self, put, put, get?_placeMembers_self, put, Keyed.insert_insert,
    Keyed.insert_insert]
  exact congrArg (Keyed.insert key · members) (inside _)

/-- Writes that yield to each other are made in either order. -/
theorem place_comm (here : Yields (keys, value) (names, next))
    (there : Yields (names, next) (keys, value)) (root : Json) :
    place value keys (place next names root) = place next names (place value keys root) := by
  induction keys generalizing names root with
  | nil => rfl
  | cons key rest ih =>
    cases names with
    | nil => rfl
    | cons name more =>
      induction root using array_induction with
      | array items inside =>
        rw [place_array, place_array, place_array, place_array, List.map_map, List.map_map]
        exact congrArg Json.array (List.map_congr_left inside)
      | plain root plain =>
        rw [place_of_plain _ _ _ plain, place_of_plain _ _ _ plain, place_of_plain _ _ _ rfl,
          place_of_plain _ _ _ rfl]
        refine congrArg Json.object ?_
        dsimp only [members?, Option.getD_some]
        by_cases shared : key = name
        · subst shared
          simp only [Yields, List.cons_prefix_cons, true_and, ne_eq, List.cons.injEq] at here there
          rcases eq_or_ne rest [] with rfl | keysFull
          · obtain ⟨further, scalar⟩ := here List.nil_prefix
            exact placeMembers_leaf_comm scalar fun empty => further empty.symm
          · rcases eq_or_ne more [] with rfl | namesFull
            · exact (placeMembers_leaf_comm (there List.nil_prefix).2 keysFull).symm
            · exact placeMembers_comm_self keysFull namesFull fun root => ih here there root
        · exact placeMembers_comm_of_ne shared

end Two

/-! ## Many writes -/

/-- Writes that yield to each other are made in any order. -/
theorem placeAll_perm {writes others : List Write} (order : writes.Perm others)
    (yield : ∀ write ∈ writes, ∀ other ∈ writes, write ≠ other → Yields write other) (root : Json) :
    placeAll writes root = placeAll others root := by
  refine order.foldl_eq' (fun write member other present root => ?_) root
  by_cases same : write = other
  · rw [same]
  · exact place_comm (yield other present write member (Ne.symm same))
      (yield write member other present same) root

section Told

variable {writes others : List Write} (order : writes.Perm others)
  (told : ∀ write ∈ writes, ∀ other ∈ writes, write.1 = other.1 → write = other)

include order told

/-- Values that are neither objects nor arrays are written in any order, if each is told by its
keys. -/
theorem placeAll_perm_of_scalar (scalar : ∀ write ∈ writes, isContainer write.2 = false)
    (root : Json) : placeAll writes root = placeAll others root := by
  refine placeAll_perm order (fun write member other present differs _ => ?_) root
  exact ⟨fun same => differs (told write member other present same), scalar write member⟩

/-- Values are written in any order at keys of one number, if each is told by its keys. -/
theorem placeAll_perm_of_length {count : Nat} (long : ∀ write ∈ writes, write.1.length = count)
    (root : Json) : placeAll writes root = placeAll others root := by
  refine placeAll_perm order (fun write member other present differs start => ?_) root
  have same := start.eq_of_length ((long write member).trans (long other present).symm)
  exact absurd (told write member other present same) differs

end Told

end MessageTemplate.Example
