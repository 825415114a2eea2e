import MessageTemplate.Example.Builder
import MessageTemplate.Proofs.Example.Ends

/-! # Example data as a sequence of writes

Events, collections and values are written one after the other. What can be read from example data
is told by the list of all writes, whatever the order is in which they are made. What stands at the
end of names is told by those that touch them: the first one that puts an array or an object there,
or else the last one. -/

namespace MessageTemplate.Example

open Json

/-- Keys, and the value that is written at their end. -/
abbrev Write := List String × Json

/-- Makes some writes, the first one first. -/
def placeAll (writes : List Write) (root : Json) : Json :=
  writes.foldl (fun root write => place write.2 write.1 root) root

theorem placeAll_cons (write : Write) (writes : List Write) (root : Json) :
    placeAll (write :: writes) root = placeAll writes (place write.2 write.1 root) := rfl

theorem placeAll_append (first others : List Write) (root : Json) :
    placeAll (first ++ others) root = placeAll others (placeAll first root) :=
  List.foldl_append

/-- The writes at some paths, as far as they have keys. -/
def writesAt {α : Type} (path : α → String) (value : α → List String → Json) (items : List α) :
    List Write :=
  items.filterMap fun item => (Path.keys? (path item)).map fun keys => (keys, value item keys)

theorem mem_writesAt {α : Type} {path : α → String} {value : α → List String → Json}
    {items : List α} {write : Write} :
    write ∈ writesAt path value items ↔
      ∃ item ∈ items, ∃ keys, Path.keys? (path item) = some keys ∧
        (keys, value item keys) = write := by
  simp only [writesAt, List.mem_filterMap, Option.map_eq_some_iff]

theorem writesAt_append_cons {α : Type} {path : α → String} {value : α → List String → Json}
    {before after : List α} {item : α} {keys : List String}
    (read : Path.keys? (path item) = some keys) :
    writesAt path value (before ++ item :: after) =
      writesAt path value before ++ (keys, value item keys) :: writesAt path value after := by
  simp [writesAt, read]

/-- Steps that write at the keys of a path, as far as it has keys, are these writes one after the
other. -/
theorem foldl_eq_foldl_writesAt {α : Type} {step : Json → α → Json}
    (write : Json → List String → Json → Json) (path : α → String)
    (value : α → List String → Json)
    (writes : ∀ root item, step root item = match Path.keys? (path item) with
      | some keys => write (value item keys) keys root
      | none => root) (items : List α) (root : Json) :
    items.foldl step root =
      (writesAt path value items).foldl (fun root made => write made.2 made.1 root) root := by
  induction items generalizing root with
  | nil => rfl
  | cons item items ih =>
    rw [List.foldl_cons, ih, writes, writesAt, writesAt, List.filterMap_cons]
    cases Path.keys? (path item) with
    | none => rfl
    | some keys => rfl

theorem foldl_eq_placeAll {α : Type} {step : Json → α → Json} (path : α → String)
    (value : α → List String → Json)
    (writes : ∀ root item, step root item = match Path.keys? (path item) with
      | some keys => place (value item keys) keys root
      | none => root) (items : List α) (root : Json) :
    items.foldl step root = placeAll (writesAt path value items) root :=
  foldl_eq_foldl_writesAt place path value writes items root

/-! ## What can be read after some writes -/

section Writes

variable {writes : List Write} {root : Json} {names : List String}

theorem everyBranch_placeAll_kept (reached : EveryBranch (fun _ => True) names root) :
    EveryBranch (fun _ => True) names (placeAll writes root) := by
  induction writes generalizing root with
  | nil => exact reached
  | cons write writes ih => exact ih (everyBranch_kept reached write.2)

theorem everyBranch_placeAll {write : Write} (member : write ∈ writes) :
    EveryBranch (fun _ => True) write.1 (placeAll writes root) := by
  obtain ⟨before, after, rfl⟩ := List.append_of_mem member
  rw [placeAll_append, placeAll_cons]
  exact everyBranch_placeAll_kept (everyBranch_place write.2 _)

theorem everyBranch_writesAt {α : Type} {path : α → String} {value : α → List String → Json}
    {items : List α} {item : α} {keys : List String} (member : item ∈ items)
    (read : Path.keys? (path item) = some keys) :
    EveryBranch (fun _ => True) keys (placeAll (writesAt path value items) root) := by
  have write : (keys, value item keys) ∈ writesAt path value items :=
    mem_writesAt.mpr ⟨item, member, keys, read, rfl⟩
  exact everyBranch_placeAll write

theorem full_placeAll (full : Full root) (all : ∀ write ∈ writes, Full write.2) :
    Full (placeAll writes root) := by
  induction writes generalizing root with
  | nil => exact full
  | cons write writes ih =>
    rw [List.forall_mem_cons] at all
    exact ih (full_place all.1 full) all.2

/-- What can be read comes from what was there, or from a write. -/
theorem someBranch_of_placeAll (reached : SomeBranch names (placeAll writes root)) :
    SomeBranch names root ∨ ∃ write ∈ writes, names <+: write.1 ∨
      ∃ more, names = write.1 ++ more ∧ SomeBranch more write.2 := by
  induction writes generalizing root with
  | nil => exact .inl reached
  | cons write writes ih =>
    rcases ih reached with placed | ⟨later, member, inside⟩
    · rcases someBranch_of_place placed with before | here
      · exact .inl before
      · exact .inr ⟨write, List.mem_cons_self, here⟩
    · exact .inr ⟨later, List.mem_cons_of_mem _ member, inside⟩

theorem bare_repeated (count : Nat) : Bare (repeated count (.object [])) := by
  intro names reached
  cases reached with
  | here => rfl
  | element member inside =>
    rw [List.eq_of_mem_replicate member] at inside
    exact someBranch_empty inside

theorem someBranch_of_placeAll_bare (bare : ∀ write ∈ writes, Bare write.2)
    (reached : SomeBranch names (placeAll writes root)) :
    SomeBranch names root ∨ ∃ write ∈ writes, names <+: write.1 := by
  rcases someBranch_of_placeAll reached with before | ⟨write, member, start | ⟨more, rfl, inside⟩⟩
  · exact .inl before
  · exact .inr ⟨write, member, start⟩
  · have nothing := bare write member more inside
    exact .inr ⟨write, member, by simp only [nothing, List.append_nil, List.prefix_rfl]⟩

/-! ## What stands at the end of names after some writes -/

theorem everyBranch_placeAll_of_keeps {good : Json → Prop} (full : names ≠ [])
    (keeps : ∀ write ∈ writes, ∀ rest, write.1 = names ++ rest → ∀ old, good old →
      good (written write.2 rest (some old)))
    (before : EveryBranch good names root) : EveryBranch good names (placeAll writes root) := by
  induction writes generalizing root with
  | nil => exact before
  | cons write writes ih =>
    obtain ⟨here, later⟩ := List.forall_mem_cons.mp keeps
    exact ih later (everyBranch_place_of_keeps full here before)

theorem vacant_placeAll (full : names ≠ [])
    (start : ∀ write ∈ writes, names <+: write.1 → names = write.1)
    (inside : ∀ write ∈ writes, ∀ more, names = write.1 ++ more → EachBranch Vacant more write.2)
    (before : EachBranch Vacant names root) : EachBranch Vacant names (placeAll writes root) := by
  induction writes generalizing root with
  | nil => exact before
  | cons write writes ih =>
    obtain ⟨startHere, startLater⟩ := List.forall_mem_cons.mp start
    obtain ⟨insideHere, insideLater⟩ := List.forall_mem_cons.mp inside
    exact ih startLater insideLater (vacant_place full startHere insideHere before)

/-- A value that is written where no array and no object stands is there in every branch in the end,
as far as later writes keep it. -/
theorem everyBranch_placeAll_of_vacant {good : Json → Prop} {before after : List Write}
    {value : Json} (full : names ≠ []) (vacant : EachBranch Vacant names (placeAll before root))
    (holds : good value)
    (keeps : ∀ write ∈ after, ∀ rest, write.1 = names ++ rest → ∀ old, good old →
      good (written write.2 rest (some old))) :
    EveryBranch good names (placeAll (before ++ (names, value) :: after) root) := by
  rw [placeAll_append, placeAll_cons]
  refine everyBranch_placeAll_of_keeps full keeps ?_
  rw [everyBranch_iff_eachBranch]
  exact eachBranch_place_of_vacant full vacant ⟨value, rfl, holds⟩

/-- A scalar value is there in every branch in the end if no array and no object stood there, and all
writes whose keys lead there write this value. -/
theorem everyBranch_placeAll_scalar {value : Json} (full : names ≠ [])
    (scalar : isContainer value = false) (member : (names, value) ∈ writes)
    (alike : ∀ write ∈ writes, names <+: write.1 → write = (names, value))
    (inside : ∀ write ∈ writes, ∀ more, names = write.1 ++ more → EachBranch Vacant more write.2)
    (before : EachBranch Vacant names root) :
    EveryBranch (fun found => found = value) names (placeAll writes root) := by
  obtain ⟨first, later, rfl⟩ := List.append_of_mem member
  have start : ∀ write ∈ first, names <+: write.1 → names = write.1 := by
    intro write present leads
    rw [alike write (List.mem_append_left _ present) leads]
  have vacant : EachBranch Vacant names (placeAll first root) :=
    vacant_placeAll full start
      (fun write present => inside write (List.mem_append_left _ present)) before
  refine everyBranch_placeAll_of_vacant full vacant rfl fun write present rest whole old same => ?_
  have again := alike write (List.mem_append_right _ (List.mem_cons_of_mem _ present))
    (whole ▸ List.prefix_append names rest)
  subst again
  obtain rfl : rest = [] := List.self_eq_append_right.mp whole
  rw [same]
  exact written_of_vacant (vacant_of_scalar scalar)

end Writes

/-! ## The writes of the builder -/

/-- What a path reads from the payload of an event, positions left out. -/
def payloadPath (path : String) : String :=
  match StepPath.eventPayload? path with
  | some (_, rest) => Path.stripIndices rest
  | none => ""

theorem payloadPath_eq_empty {path : String} (none : StepPath.eventPayload? path = none) :
    payloadPath path = "" := by
  rw [payloadPath, none]

theorem keys?_empty : Path.keys? "" = none := by decide

/-- The writes for what is read from the payload of the events of a step. -/
def payloadWrites (digestPaths : List String) (events : String) : List Write :=
  writesAt payloadPath (fun _ keys => .string (keys.getLast?.getD ""))
    (digestPaths.filter fun path => eventsOf path = events)

theorem payloadOfEvents_eq (digestPaths : List String) (events : String) :
    payloadOfEvents digestPaths events =
      placeAll (payloadWrites digestPaths events) (.object []) := by
  refine foldl_eq_placeAll payloadPath _ (fun payload path => ?_) _ _
  rw [addToPayload, payloadPath]
  cases StepPath.eventPayload? path with
  | none => simp only [keys?_empty]
  | some found =>
    cases read : Path.keys? (Path.stripIndices found.2) with
    | none => simp only [read]
    | some keys => simp only [read]

namespace Builder

variable (builder : Builder) (arrays : List DeclaredArray)

def digestWrites (digestPaths : List String) : List Write :=
  writesAt id (fun events _ => builder.exampleEvents arrays digestPaths events)
    (distinct (digestPaths.map eventsOf))

theorem placeDigest_eq (digestPaths : List String) (root : Json) :
    builder.placeDigest arrays digestPaths root =
      placeAll (builder.digestWrites arrays digestPaths) root :=
  foldl_eq_placeAll id _ (fun _ _ => rfl) _ _

/-- All collections, those near the root first. -/
def collections (paths : List String) : List DeclaredArray :=
  sortByDepth DeclaredArray.path
    (builder.declared arrays ++ builder.implied (builder.declared arrays) paths)

theorem foldl_placeAt_eq (collections : List DeclaredArray) (root : Json) :
    collections.foldl
        (fun root array => placeAt array.path (repeated array.iterations (.object [])) root) root =
      placeAll (writesAt DeclaredArray.path (fun array _ => repeated array.iterations (.object []))
        collections) root :=
  foldl_eq_placeAll DeclaredArray.path _ (fun _ _ => rfl) _ _

def collectionWrites (paths : List String) : List Write :=
  writesAt DeclaredArray.path (fun array _ => repeated array.iterations (.object []))
    (builder.collections arrays paths)

theorem placeArrays_eq (paths : List String) (root : Json) :
    builder.placeArrays arrays paths root = placeAll (builder.collectionWrites arrays paths) root :=
  foldl_placeAt_eq _ _

/-- What stands for the value of a path holds no other values. -/
theorem plain_standIn (path : String) (keys : List String) :
    (builder.standIn path keys).items? = none ∧ (builder.standIn path keys).members? = none := by
  unfold standIn
  split
  · exact ⟨rfl, rfl⟩
  · split
    · exact ⟨rfl, rfl⟩
    · exact ⟨rfl, rfl⟩

def leafWrites (flags paths : List String) : List Write :=
  writesAt id (fun path keys => if (flags.map Path.stripIndices).contains path then .bool true
    else builder.standIn path keys) (leaves paths)

theorem placeLeaves_eq (flags paths : List String) (root : Json) :
    (leaves paths).foldl (builder.placeLeaf (flags.map Path.stripIndices)) root =
      placeAll (builder.leafWrites flags paths) root :=
  foldl_eq_placeAll id _ (fun _ _ => rfl) _ _

/-- The paths into events, among those that example data is made for. -/
def digestPaths (paths : List String) : List String := (builder.candidates paths).filter isDigest

/-- The other paths. -/
def scalarPaths (paths : List String) : List String :=
  (builder.candidates paths).filter fun path => !isDigest path

/-- Example data is made by the writes for events, then for collections, then for values. -/
theorem build_eq_placeAll (paths flags : List String) :
    builder.build paths arrays flags =
      placeAll (builder.digestWrites arrays (builder.digestPaths (paths ++ flags)) ++
        (builder.collectionWrites arrays (builder.scalarPaths (paths ++ flags)) ++
          builder.leafWrites flags (builder.scalarPaths (paths ++ flags)))) (.object []) := by
  simp only [build, placeDigest_eq, placeArrays_eq, placeLeaves_eq, placeAll_append, digestPaths,
    scalarPaths]

end Builder

end MessageTemplate.Example
