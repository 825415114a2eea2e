/-! # Entries in key order

A finite map from strings is a list of entries whose keys increase. Insertion keeps the order, so
that two maps with the same entries are the same list, and a map is written out in the order of
its keys. -/

namespace MessageTemplate

/-- A finite map as a list of entries in key order. -/
abbrev Keyed (α : Type) := List (String × α)

namespace Keyed

variable {α β : Type}

/-- The value under a key. -/
def get? (key : String) : Keyed α → Option α
  | [] => none
  | (other, value) :: rest => if key = other then some value else get? key rest

/-- Whether a key is present. -/
def has (key : String) (entries : Keyed α) : Bool :=
  (get? key entries).isSome

/-- Puts a value under a key, in place of the one that stands there. -/
def insert (key : String) (value : α) : Keyed α → Keyed α
  | [] => [(key, value)]
  | (other, old) :: rest =>
    if key = other then (key, value) :: rest
    else if key < other then (key, value) :: (other, old) :: rest
    else (other, old) :: insert key value rest

/-- Puts a value under a key that is not present. -/
def insertNew (key : String) (value : α) (entries : Keyed α) : Keyed α :=
  if has key entries then entries else insert key value entries

/-- Removes the entry under a key. -/
def erase (key : String) (entries : Keyed α) : Keyed α :=
  entries.filter fun entry => entry.1 ≠ key

/-- The map of a list of entries; of two entries with one key the later one counts. -/
def ofList (entries : List (String × α)) : Keyed α :=
  entries.foldl (fun map entry => insert entry.1 entry.2 map) []

/-- The keys in order. -/
def keys (entries : Keyed α) : List String :=
  entries.map Prod.fst

/-- The entries stand in the order of their keys, and no key stands twice. -/
def Sorted (entries : Keyed α) : Prop :=
  entries.Pairwise fun left right => left.1 < right.1

@[simp] theorem get?_nil (key : String) : get? key ([] : Keyed α) = none := rfl

/-- A value is read back under the key it was put. -/
@[simp] theorem get?_insert_self (key : String) (value : α) (entries : Keyed α) :
    get? key (insert key value entries) = some value := by
  induction entries with
  | nil => simp [insert, get?]
  | cons entry rest ih =>
    obtain ⟨other, old⟩ := entry
    rw [insert]
    split
    · simp [get?]
    · next differs =>
      split
      · simp [get?]
      · simp [get?, differs, ih]

/-- Putting a value leaves the other keys alone. -/
theorem get?_insert_of_ne {key other : String} (value : α) (entries : Keyed α)
    (differs : other ≠ key) : get? other (insert key value entries) = get? other entries := by
  induction entries with
  | nil => simp [insert, get?, differs]
  | cons entry rest ih =>
    obtain ⟨name, old⟩ := entry
    rw [insert]
    split
    · next same => subst same; simp [get?, differs]
    · split
      · simp [get?, differs]
      · simp [get?, ih]

/-- Putting a value under a key that is present brings up no key. -/
theorem has_insert_of_has {key other : String} {value : α} {entries : Keyed α}
    (present : has key entries = true) :
    has other (insert key value entries) = has other entries := by
  by_cases same : other = key
  · subst same
    rw [present, has, get?_insert_self]
    rfl
  · rw [has, get?_insert_of_ne value entries same, has]

/-- Putting a new value leaves the keys alone that are present. -/
theorem get?_insertNew (key other : String) (value : α) (entries : Keyed α) :
    get? other (insertNew key value entries) =
      (get? other entries).or (if other = key then some value else none) := by
  by_cases same : other = key
  · subst same
    rw [if_pos rfl, insertNew, has]
    cases found : get? other entries with
    | none => simp
    | some old => simp [found]
  · rw [if_neg same, Option.or_none, insertNew]
    split
    · rfl
    · exact get?_insert_of_ne value entries same

/-- A key that has been removed is not present. -/
@[simp] theorem get?_erase_self (key : String) (entries : Keyed α) :
    get? key (erase key entries) = none := by
  induction entries with
  | nil => rfl
  | cons entry rest ih =>
    obtain ⟨other, value⟩ := entry
    rw [erase, List.filter_cons]
    split
    · next differs =>
      rw [get?, if_neg fun same => by simp [same] at differs]
      exact ih
    · exact ih

/-- Removing a key leaves the other keys alone. -/
theorem get?_erase_of_ne {key other : String} (entries : Keyed α) (differs : other ≠ key) :
    get? other (erase key entries) = get? other entries := by
  induction entries with
  | nil => rfl
  | cons entry rest ih =>
    obtain ⟨name, value⟩ := entry
    rw [erase, List.filter_cons, get?]
    split
    · rw [get?]
      exact congrArg (fun found => if other = name then some value else found) ih
    · next same =>
      obtain rfl : name = key := by simpa using same
      rw [if_neg differs]
      exact ih

theorem mem_of_get? {key : String} {value : α} {entries : Keyed α}
    (found : get? key entries = some value) : (key, value) ∈ entries := by
  induction entries with
  | nil => contradiction
  | cons entry rest ih =>
    obtain ⟨other, old⟩ := entry
    rw [get?] at found
    split at found
    · next same =>
      cases found
      exact same ▸ List.mem_cons_self
    · exact List.mem_cons_of_mem _ (ih found)

/-- Putting a value adds no other entry. -/
theorem mem_insert {key : String} {value : α} {entries : Keyed α} {entry : String × α}
    (member : entry ∈ insert key value entries) : entry = (key, value) ∨ entry ∈ entries := by
  induction entries with
  | nil => exact .inl (List.mem_singleton.mp member)
  | cons first rest ih =>
    obtain ⟨other, old⟩ := first
    rw [insert] at member
    split at member
    · exact (List.mem_cons.mp member).imp_right (List.mem_cons_of_mem _)
    · split at member
      · exact List.mem_cons.mp member
      · rcases List.mem_cons.mp member with rfl | later
        · exact .inr List.mem_cons_self
        · exact (ih later).imp_right (List.mem_cons_of_mem _)

/-! ## Putting several values -/

section Insert

variable {key other : String} {entries : Keyed α}

theorem insert_of_lt (before : key < other) (value old : α) :
    insert key value ((other, old) :: entries) = (key, value) :: (other, old) :: entries := by
  have differs : key ≠ other := fun same => String.lt_irrefl other (same ▸ before)
  rw [insert, if_neg differs, if_pos before]

theorem insert_of_gt (behind : other < key) (value old : α) :
    insert key value ((other, old) :: entries) = (other, old) :: insert key value entries := by
  have differs : key ≠ other := fun same => String.lt_irrefl other (same ▸ behind)
  rw [insert, if_neg differs, if_neg (String.lt_asymm behind)]

theorem insert_cons_self (value old : α) :
    insert key value ((key, old) :: entries) = (key, value) :: entries := by
  rw [insert, if_pos rfl]

theorem lt_or_eq_or_gt (key other : String) : key < other ∨ key = other ∨ other < key := by
  by_cases before : key < other
  · exact .inl before
  · by_cases behind : other < key
    · exact .inr (.inr behind)
    · exact .inr (.inl (String.le_antisymm (String.not_lt.mp behind) (String.not_lt.mp before)))

/-- Of two values that are put under a key, the later one counts. -/
theorem insert_insert (value old : α) :
    insert key value (insert key old entries) = insert key value entries := by
  induction entries with
  | nil => rw [insert, insert_cons_self, insert]
  | cons entry rest ih =>
    obtain ⟨name, here⟩ := entry
    rcases lt_or_eq_or_gt key name with before | rfl | behind
    · rw [insert_of_lt before, insert_of_lt before, insert_cons_self]
    · rw [insert_cons_self, insert_cons_self, insert_cons_self]
    · rw [insert_of_gt behind, insert_of_gt behind, insert_of_gt behind, ih]

theorem insert_comm_of_lt (order : key < other) (value next : α) :
    insert key value (insert other next entries) =
      insert other next (insert key value entries) := by
  induction entries with
  | nil => rw [insert, insert, insert_of_lt order, insert_of_gt order, insert]
  | cons entry rest ih =>
    obtain ⟨name, old⟩ := entry
    rcases lt_or_eq_or_gt other name with before | rfl | behind
    · rw [insert_of_lt before, insert_of_lt order, insert_of_lt (String.lt_trans order before),
        insert_of_gt order, insert_of_lt before]
    · rw [insert_cons_self, insert_of_lt order, insert_of_lt order, insert_of_gt order,
        insert_cons_self]
    · rw [insert_of_gt behind]
      rcases lt_or_eq_or_gt key name with first | rfl | last
      · rw [insert_of_lt first, insert_of_lt first, insert_of_gt order, insert_of_gt behind]
      · rw [insert_cons_self, insert_cons_self, insert_of_gt behind]
      · rw [insert_of_gt last, insert_of_gt last, insert_of_gt behind, ih]

/-- Values are put under different keys in either order. -/
theorem insert_comm (differs : key ≠ other) (value next : α) :
    insert key value (insert other next entries) =
      insert other next (insert key value entries) := by
  rcases lt_or_eq_or_gt key other with before | same | behind
  · exact insert_comm_of_lt before value next
  · exact absurd same differs
  · exact (insert_comm_of_lt behind next value).symm

end Insert

/-! ## Keys in order -/

section Order

variable {key : String} {value : α} {entries : Keyed α}

theorem has_iff_mem_keys : has key entries ↔ key ∈ keys entries := by
  induction entries with
  | nil => simp [has, keys]
  | cons entry rest ih =>
    obtain ⟨other, old⟩ := entry
    rw [has, get?, keys, List.map_cons, List.mem_cons]
    split
    · next same => exact iff_of_true rfl (.inl same)
    · next differs => exact ih.trans (or_iff_right differs).symm

theorem sorted_insert (sorted : Sorted entries) : Sorted (insert key value entries) := by
  induction entries with
  | nil => exact List.pairwise_singleton _ _
  | cons entry rest ih =>
    obtain ⟨other, old⟩ := entry
    obtain ⟨first, later⟩ := List.pairwise_cons.mp sorted
    rcases lt_or_eq_or_gt key other with before | rfl | behind
    · rw [insert_of_lt before]
      refine List.pairwise_cons.mpr ⟨fun each member => ?_, sorted⟩
      rcases List.mem_cons.mp member with rfl | inside
      · exact before
      · exact String.lt_trans before (first each inside)
    · rw [insert_cons_self]
      exact List.pairwise_cons.mpr ⟨first, later⟩
    · rw [insert_of_gt behind]
      refine List.pairwise_cons.mpr ⟨fun each member => ?_, ih later⟩
      rcases mem_insert member with rfl | inside
      · exact behind
      · exact first each inside

theorem insert_eq_append (last : ∀ entry ∈ entries, entry.1 < key) :
    insert key value entries = entries ++ [(key, value)] := by
  induction entries with
  | nil => rfl
  | cons entry rest ih =>
    obtain ⟨first, later⟩ := List.forall_mem_cons.mp last
    rw [insert_of_gt first, ih later]
    rfl

/-- Entries that stand in order behind those of a map are added to it as they are. -/
theorem foldl_insert_eq_append {more : List (String × α)} (sorted : Sorted (entries ++ more)) :
    more.foldl (fun map entry => insert entry.1 entry.2 map) entries = entries ++ more := by
  induction more generalizing entries with
  | nil => exact (List.append_nil entries).symm
  | cons entry rest ih =>
    have last : ∀ each ∈ entries, each.1 < entry.1 := fun each member =>
      (List.pairwise_append.mp sorted).2.2 each member entry List.mem_cons_self
    rw [List.foldl_cons, insert_eq_append last, ih]
    · exact (List.append_cons entries entry rest).symm
    · rwa [← List.append_cons]

/-- Entries in order are the map that they make. -/
theorem ofList_eq_self (sorted : Sorted entries) : ofList entries = entries :=
  foldl_insert_eq_append sorted

theorem sorted_foldl_insert (sorted : Sorted entries) (more : List (String × α)) :
    Sorted (more.foldl (fun map entry => insert entry.1 entry.2 map) entries) := by
  induction more generalizing entries with
  | nil => exact sorted
  | cons entry rest ih => exact ih (sorted_insert sorted)

theorem sorted_ofList (more : List (String × α)) : Sorted (ofList more) :=
  sorted_foldl_insert .nil more

theorem mem_of_mem_foldl_insert {more : List (String × α)} {entry : String × α}
    (member : entry ∈ more.foldl (fun map entry => insert entry.1 entry.2 map) entries) :
    entry ∈ entries ∨ entry ∈ more := by
  induction more generalizing entries with
  | nil => exact .inl member
  | cons first rest ih =>
    rcases ih member with before | later
    · rcases mem_insert before with rfl | old
      · exact .inr List.mem_cons_self
      · exact .inl old
    · exact .inr (List.mem_cons_of_mem _ later)

/-- A map has no other entries than those it is made of. -/
theorem mem_of_mem_ofList {more : List (String × α)} {entry : String × α}
    (member : entry ∈ ofList more) : entry ∈ more :=
  (mem_of_mem_foldl_insert member).resolve_left List.not_mem_nil

end Order

end Keyed

end MessageTemplate
