import MessageTemplate.Proofs.Example.Writes
import MessageTemplate.Proofs.Path.Read

/-! # What filling in adds

Filling in adds the value of a path where it is missing, and never changes what is there. So a path
that has been filled in is read in every branch, unless a value that is neither an object nor an
array stands on the way to it: one that was there before, or one that has been filled in for a path
that ends there. -/

namespace MessageTemplate.Example

open Json

/-! ## One step -/

/-- What filling in makes of a value that is no array, given the first key and the others. -/
def fillInto (value : Json) (key : String) : List String → Json → Json
  | [] => fillLeaf key value
  | next :: rest => fillChild key (fill value (next :: rest))

/-- What stands under the first key of an object after filling in, given what stood there before. -/
def filled (value : Json) : List String → Option Json → Json
  | [], old => old.getD value
  | next :: rest, old => fill value (next :: rest) (old.getD (.object []))

section Step

variable (value : Json) (key : String) (rest : List String)

theorem fill_cons (root : Json) :
    fill value (key :: rest) root = throughArrays (fillInto value key rest) root := by
  cases rest <;> rfl

theorem isObject_fillInto (root : Json) :
    (fillInto value key rest root).isObject = root.isObject := by
  cases root with
  | object => cases rest <;> rfl
  | null | bool | number | string | array => cases rest <;> rfl

theorem items?_fillInto {root : Json} (plain : root.items? = none) :
    (fillInto value key rest root).items? = none := by
  cases root with
  | object => cases rest <;> rfl
  | array => cases plain
  | null | bool | number | string => cases rest <;> rfl

theorem member?_fillInto_self {root : Json} (object : root.isObject) :
    (fillInto value key rest root).member? key = some (filled value rest (root.member? key)) := by
  cases root with
  | object members =>
    cases rest with
    | nil =>
      cases found : Keyed.get? key members with
      | none => simp [fillInto, fillLeaf, Keyed.insertNew, Keyed.has, member?, filled, found]
      | some old => simp [fillInto, fillLeaf, Keyed.insertNew, Keyed.has, member?, filled, found]
    | cons next rest => simp [fillInto, fillChild, member?, filled]
  | null | bool | number | string | array => cases object

theorem member?_fillInto_of_ne {name : String} (differs : name ≠ key) (root : Json) :
    (fillInto value key rest root).member? name = root.member? name := by
  cases root with
  | object members =>
    cases rest with
    | nil =>
      simp only [fillInto, fillLeaf, Keyed.insertNew, member?]
      split
      · rfl
      · exact Keyed.get?_insert_of_ne _ _ differs
    | cons next rest => exact Keyed.get?_insert_of_ne _ _ differs
  | null | bool | number | string | array => cases rest <;> rfl

theorem spread_fill (root : Json) :
    spread (fill value (key :: rest) root) = (spread root).map (fillInto value key rest) := by
  rw [fill_cons, spread_throughArrays fun _ plain => items?_fillInto value key rest plain]

end Step

/-! ## Where names lead after filling in -/

section Names

variable {value root : Json} {key name : String} {rest names : List String}

theorem open_fill_cons_self :
    Open (key :: names) (fill value (key :: rest) root) ↔
      ∀ inner ∈ spread root,
        inner.isObject ∧ Open names (filled value rest (inner.member? key)) := by
  rw [open_cons_iff, spread_fill, List.forall_mem_map]
  refine forall₂_congr fun inner _ => ?_
  rw [isObject_fillInto]
  refine and_congr_right fun object => ?_
  rw [member?_fillInto_self value key rest object]
  simp

theorem open_fill_cons_of_ne (differs : name ≠ key) :
    Open (name :: names) (fill value (key :: rest) root) ↔ Open (name :: names) root := by
  rw [open_cons_iff, open_cons_iff, spread_fill, List.forall_mem_map]
  simp only [isObject_fillInto, member?_fillInto_of_ne value key rest differs]

theorem everyBranch_fill_cons_self {good : Json → Prop}
    (objects : ∀ inner ∈ spread root, inner.isObject) :
    EveryBranch good (key :: names) (fill value (key :: rest) root) ↔
      ∀ inner ∈ spread root, EveryBranch good names (filled value rest (inner.member? key)) := by
  rw [everyBranch_cons_iff, spread_fill, List.forall_mem_map]
  refine forall₂_congr fun inner inside => ?_
  rw [member?_fillInto_self value key rest (objects inner inside)]
  simp

theorem everyBranch_fill_cons_of_ne {good : Json → Prop} (differs : name ≠ key) :
    EveryBranch good (name :: names) (fill value (key :: rest) root) ↔
      EveryBranch good (name :: names) root := by
  rw [everyBranch_cons_iff, everyBranch_cons_iff, spread_fill, List.forall_mem_map]
  simp only [member?_fillInto_of_ne value key rest differs]

end Names

theorem everyBranch_empty_iff {names : List String} :
    EveryBranch (fun _ => True) names (.object []) ↔ names = [] := by
  constructor
  · intro reached
    cases reached with
    | here => rfl
    | member found => cases found
  · rintro rfl
    exact .here trivial

theorem everyBranch_scalar_iff {names : List String} {value : Json} (noItems : value.items? = none)
    (noMembers : value.members? = none) :
    EveryBranch (fun _ => True) names value ↔ names = [] := by
  constructor
  · intro reached
    exact (open_scalar_iff noItems noMembers).mp reached.opens
  · rintro rfl
    exact .here trivial

section Scalar

variable {value root : Json} {names keys rest : List String} {found : Option Json}
  (noItems : value.items? = none) (noMembers : value.members? = none)

include noItems noMembers

theorem everyBranch_filled_iff
    (fill_iff : ∀ root, Open names root → (EveryBranch (fun _ => True) names (fill value rest root) ↔
      EveryBranch (fun _ => True) names root ∨ names <+: rest))
    (passes : ∀ old, found = some old → Open names old) :
    EveryBranch (fun _ => True) names (filled value rest found) ↔
      (∃ old, found = some old ∧ EveryBranch (fun _ => True) names old) ∨ names <+: rest := by
  cases rest with
  | nil =>
    cases found with
    | none => simp [filled, everyBranch_scalar_iff noItems noMembers]
    | some old =>
      simp only [filled, Option.getD_some, Option.some.injEq, exists_eq_left', List.prefix_nil,
        iff_self_or]
      rintro rfl
      exact .here trivial
  | cons next rest =>
    cases found with
    | none =>
      have empty := fill_iff (.object []) (open_empty names)
      rw [everyBranch_empty_iff, or_iff_right_of_imp fun none => none ▸ List.nil_prefix] at empty
      simpa [filled] using empty
    | some old => simpa [filled] using fill_iff old (passes old rfl)

/-- Of names that are open, those are read in every branch that were before, or that are filled in
on the way. -/
theorem everyBranch_fill_iff (passes : Open names root) :
    EveryBranch (fun _ => True) names (fill value keys root) ↔
      EveryBranch (fun _ => True) names root ∨ names <+: keys := by
  induction keys generalizing names root with
  | nil =>
    cases names with
    | nil => simp [fill, EveryBranch.here]
    | cons name names => simp [fill]
  | cons key rest ih =>
    cases names with
    | nil => simp [EveryBranch.here]
    | cons name names =>
      by_cases same : name = key
      · subst same
        have each := open_cons_iff.mp passes
        rw [everyBranch_fill_cons_self fun inner inside => (each inner inside).1,
          everyBranch_cons_iff, List.cons_prefix_cons, and_iff_right rfl]
        have inside := fun inner member =>
          everyBranch_filled_iff noItems noMembers (fun _ => ih) (each inner member).2
        rw [forall₂_congr inside]
        simp only [forall_or_right]
      · rw [everyBranch_fill_cons_of_ne same, List.cons_prefix_cons]
        simp [same]

theorem open_filled_iff
    (fill_iff : ∀ root, Open names (fill value rest root) ↔
      Open names root ∧ (rest <+: names → rest ≠ names → EveryBranch (fun _ => True) rest root)) :
    Open names (filled value rest found) ↔
      (∀ old, found = some old → Open names old) ∧ (rest <+: names → rest ≠ names →
        ∃ old, found = some old ∧ EveryBranch (fun _ => True) rest old) := by
  cases rest with
  | nil =>
    cases found with
    | none => simp [filled, open_scalar_iff noItems noMembers, eq_comm]
    | some old => simp [filled, EveryBranch.here]
  | cons next rest =>
    cases found with
    | none =>
      have empty := fill_iff (.object [])
      rw [and_iff_right (open_empty names), everyBranch_empty_iff] at empty
      simpa [filled] using empty
    | some old => simpa [filled] using fill_iff old

/-- Names are open after filling in if they were before, unless they lead on from a place where the
value has been filled in. -/
theorem open_fill_iff :
    Open names (fill value keys root) ↔
      Open names root ∧ (keys <+: names → keys ≠ names → EveryBranch (fun _ => True) keys root) := by
  induction keys generalizing names root with
  | nil => simp [fill, EveryBranch.here]
  | cons key rest ih =>
    cases names with
    | nil => simp [Open.here]
    | cons name names =>
      by_cases same : name = key
      · subst same
        rw [open_fill_cons_self, open_cons_iff, everyBranch_cons_iff, List.cons_prefix_cons,
          and_iff_right rfl]
        simp only [open_filled_iff noItems noMembers fun _ => ih]
        constructor
        · intro each
          refine ⟨fun inner member => ⟨(each inner member).1, (each inner member).2.1⟩, ?_⟩
          intro start shorter inner member
          exact (each inner member).2.2 start fun whole => shorter (congrArg (name :: ·) whole)
        · rintro ⟨before, present⟩ inner member
          refine ⟨(before inner member).1, (before inner member).2, fun start shorter => ?_⟩
          exact present start (fun whole => shorter (List.cons.inj whole).2) inner member
      · rw [open_fill_cons_of_ne same, List.cons_prefix_cons]
        simp [Ne.symm same]

end Scalar

/-! ## Filling in one after the other -/

/-- Fills in some values, the first one first. -/
def fillAll (writes : List Write) (root : Json) : Json :=
  writes.foldl (fun root write => fill write.2 write.1 root) root

/-- Whether the first of some chains of names that leads along given names ends with them. -/
def endsFirst (chains : List (List String)) (names : List String) : Bool :=
  chains.find? names.isPrefixOf = some names

section EndsFirst

variable {chain names : List String} {chains : List (List String)}

theorem endsFirst_cons_of_isPrefix (leads : names <+: chain) :
    endsFirst (chain :: chains) names ↔ chain = names := by
  have found : names.isPrefixOf chain = true := List.isPrefixOf_iff_prefix.mpr leads
  simp [endsFirst, found]

theorem endsFirst_cons_of_not_isPrefix (other : ¬ names <+: chain) :
    endsFirst (chain :: chains) names = endsFirst chains names := by
  have missed : names.isPrefixOf chain = false := by
    rw [← Bool.not_eq_true, List.isPrefixOf_iff_prefix]
    exact other
  simp [endsFirst, missed]

end EndsFirst

section Writes

variable {writes : List Write} {root : Json} {names : List String}
  (scalar : ∀ write ∈ writes, write.2.items? = none ∧ write.2.members? = none)

include scalar

theorem everyBranch_fillAll_kept (reached : EveryBranch (fun _ => True) names root) :
    EveryBranch (fun _ => True) names (fillAll writes root) := by
  induction writes generalizing root with
  | nil => exact reached
  | cons write writes ih =>
    obtain ⟨⟨noItems, noMembers⟩, later⟩ := List.forall_mem_cons.mp scalar
    exact ih later ((everyBranch_fill_iff noItems noMembers reached.opens).mpr (.inl reached))

theorem open_of_open_fillAll (passes : Open names (fillAll writes root)) : Open names root := by
  induction writes generalizing root with
  | nil => exact passes
  | cons write writes ih =>
    obtain ⟨⟨noItems, noMembers⟩, later⟩ := List.forall_mem_cons.mp scalar
    exact ((open_fill_iff noItems noMembers).mp (ih later passes)).1

/-- Names stay open unless they lead on from a place that is filled in before anything behind it. -/
theorem open_fillAll_iff :
    Open names (fillAll writes root) ↔
      Open names root ∧ ∀ start, start <+: names → start ≠ names →
        EveryBranch (fun _ => True) start root ∨ ¬ endsFirst (writes.map Prod.fst) start := by
  induction writes generalizing root with
  | nil => simp [fillAll, endsFirst]
  | cons write writes ih =>
    obtain ⟨⟨noItems, noMembers⟩, later⟩ := List.forall_mem_cons.mp scalar
    have step : fillAll (write :: writes) root = fillAll writes (fill write.2 write.1 root) := rfl
    rw [step, ih later, open_fill_iff noItems noMembers, and_assoc]
    refine and_congr_right fun passes => ?_
    have filledIn := fun start (below : start <+: names) =>
      @everyBranch_fill_iff _ root start write.1 noItems noMembers (passes.of_isPrefix below)
    rw [List.map_cons]
    constructor
    · rintro ⟨present, others⟩ start below shorter
      by_cases leads : start <+: write.1
      · by_cases ends : write.1 = start
        · subst ends
          exact .inl (present below shorter)
        · exact .inr fun first => ends ((endsFirst_cons_of_isPrefix leads).mp first)
      · rw [endsFirst_cons_of_not_isPrefix leads]
        refine (others start below shorter).imp_left fun reached => ?_
        exact ((filledIn start below).mp reached).resolve_right leads
    · intro each
      refine ⟨fun below shorter => ?_, fun start below shorter => ?_⟩
      · refine (each write.1 below shorter).resolve_right fun none => none ?_
        exact (endsFirst_cons_of_isPrefix List.prefix_rfl).mpr rfl
      · rw [filledIn start below]
        by_cases leads : start <+: write.1
        · exact .inl (.inr leads)
        · have before := each start below shorter
          rw [endsFirst_cons_of_not_isPrefix leads] at before
          exact before.imp_left .inl

/-- What is filled in is read in every branch exactly if its names are open. -/
theorem everyBranch_fillAll_iff {write : Write} (member : write ∈ writes) :
    EveryBranch (fun _ => True) write.1 (fillAll writes root) ↔
      Open write.1 (fillAll writes root) := by
  refine ⟨EveryBranch.opens, fun passes => ?_⟩
  obtain ⟨before, after, rfl⟩ := List.append_of_mem member
  rw [List.forall_mem_append, List.forall_mem_cons] at scalar
  obtain ⟨first, ⟨noItems, noMembers⟩, last⟩ := scalar
  rw [fillAll, List.foldl_append, List.foldl_cons] at passes ⊢
  have filledIn := open_of_open_fillAll last passes
  have here := ((open_fill_iff noItems noMembers).mp filledIn).1
  exact everyBranch_fillAll_kept last
    ((everyBranch_fill_iff noItems noMembers here).mpr (.inr List.prefix_rfl))

end Writes

/-! ## Stand-ins for missing values -/

namespace Builder

variable {builder : Builder} {paths : List String}

/-- What is filled in for some paths. -/
def standInWrites (builder : Builder) (paths : List String) : List Write :=
  writesAt Path.normalize (fun path keys => builder.standIn (Path.normalize path) keys) paths

theorem withStandIns_object (members : List (String × Json)) :
    builder.withStandIns (.object members) paths =
      fillAll (builder.standInWrites paths) (.object members) := by
  have object : (Json.object members).isObject = true := rfl
  rw [withStandIns, if_pos object]
  refine foldl_eq_foldl_writesAt fill Path.normalize _ (fun data path => ?_) paths _
  cases read : Path.keys? (Path.normalize path) with
  | none =>
    delta fillIn
    dsimp only
    rw [read]
  | some keys =>
    delta fillIn
    dsimp only
    rw [read]

theorem scalar_of_mem_standInWrites :
    ∀ write ∈ builder.standInWrites paths, write.2.items? = none ∧ write.2.members? = none := by
  intro write member
  obtain ⟨path, -, keys, -, rfl⟩ := mem_writesAt.mp member
  dsimp only
  exact builder.plain_standIn _ _

theorem keys_standInWrites (clean : ∀ path ∈ paths, Path.isClean path) :
    (builder.standInWrites paths).map Prod.fst = paths.filterMap Path.keys? := by
  rw [standInWrites, writesAt, List.map_filterMap]
  refine List.filterMap_congr fun path member => ?_
  rw [Path.keys?_normalize (clean path member), Option.map_map]
  exact Option.map_id'

/-- A path is read in every branch of data with stand-ins exactly if only objects and arrays stand
on the way to it in the data, and no path that ends on the way there gets its stand-in before
anything behind it, in a branch where it is missing. -/
theorem withStandIns_reads_iff {members : List (String × Json)} {path : String}
    {keys : List String} (clean : ∀ path ∈ paths, Path.isClean path) (member : path ∈ paths)
    (read : Path.keys? path = some keys) :
    EveryBranch (fun _ => True) keys (builder.withStandIns (.object members) paths) ↔
      Open keys (.object members) ∧ ∀ count < keys.length,
        EveryBranch (fun _ => True) (keys.take count) (.object members) ∨
          ¬ endsFirst (paths.filterMap Path.keys?) (keys.take count) := by
  have scalar := @scalar_of_mem_standInWrites builder paths
  have write : (keys, builder.standIn (Path.normalize path) keys) ∈
      builder.standInWrites paths := by
    refine mem_writesAt.mpr ⟨path, member, keys, ?_, rfl⟩
    rw [Path.keys?_normalize (clean path member), read]
  rw [withStandIns_object, everyBranch_fillAll_iff scalar write, open_fillAll_iff scalar,
    keys_standInWrites clean]
  refine and_congr_right fun _ => ?_
  constructor
  · intro each count below
    refine each _ (List.take_prefix _ _) fun whole => ?_
    have := congrArg List.length whole
    rw [List.length_take_of_le (Nat.le_of_lt below)] at this
    exact Nat.ne_of_lt below this
  · rintro each start ⟨rest, rfl⟩ shorter
    have full : rest ≠ [] := by
      rintro rfl
      exact shorter (List.append_nil start).symm
    have := each start.length (by
      rw [List.length_append]
      exact Nat.lt_add_of_pos_right (List.length_pos_of_ne_nil full))
    rwa [List.take_left] at this

/-- A path gets its stand-in in all elements of an array, next to what they have. The path that ends
on the way there comes first, but behind one that leads through it. -/
theorem withStandIns_reads_netPrices :
    EveryBranch (fun _ => True) ["items", "price", "net"]
      ((standard "").withStandIns
        (.object [("items", .array [.object [("price", .object [])], .object []])])
        ["items.price.gross", "items.price", "items[0].price.net"]) := by
  refine (@withStandIns_reads_iff _ _ _ "items[0].price.net" _ (by decide +kernel)
    (by decide +kernel) (by decide +kernel)).mpr ?_
  decide +kernel

/-- The stand-in of a path that comes first keeps what leads on from it from being added, though
nothing stands on the way in the data. -/
theorem withStandIns_misses :
    (∀ path ∈ ["user", "user.name"], Path.isClean path) ∧
      Path.keys? "user.name" = some ["user", "name"] ∧ Open ["user", "name"] (.object []) ∧
      ¬ EveryBranch (fun _ => True) ["user", "name"]
        ((standard "").withStandIns (.object []) ["user", "user.name"]) := by
  decide +kernel

end Builder

end MessageTemplate.Example
