import MessageTemplate.Proofs.Example.Commuting
import MessageTemplate.Proofs.Example.Positions
import MessageTemplate.Proofs.Path.Solid
import Mathlib.Data.Finset.Order

/-! # Example data for the same paths

Example data is put together path by path, and paths of one depth stay in the order they are given
in. Their writes may be made in any order: the events of different steps have other names, what is
read from a payload and the values of paths hold no other values, and collections of one depth that
positions imply have as many names. So paths without blanks make the same example data in whatever
order they are given, and however often (`build_eq_of_mem_iff`). -/

namespace MessageTemplate.Example

open Json

/-! ## Items in order of depth -/

section Levels

variable {α β : Type} {depth : α → Nat} {items others : List α}

theorem filter_le_of_pairwise
    (sorted : items.Pairwise fun left right => depth left ≤ depth right) (level : Nat) :
    items.filter (fun item => depth item ≤ level) =
      items.filter (fun item => depth item < level) ++
        items.filter fun item => depth item = level := by
  induction items with
  | nil => rfl
  | cons first items ih =>
    obtain ⟨least, rest⟩ := List.pairwise_cons.mp sorted
    have later := ih rest
    rcases lt_trichotomy (depth first) level with below | here | above
    · simp [below, below.le, below.ne, later]
    · -- nothing behind lies below the level
      have none : items.filter (fun item => decide (depth item < level)) = [] := by
        refine List.filter_eq_nil_iff.mpr fun item member lower => ?_
        have := least item member
        have := of_decide_eq_true lower
        omega
      rw [none, List.nil_append] at later
      simp [here, none, later]
    · simp [above.not_ge, above.not_gt, above.ne', later]

/-- Steps are taken alike through two sorted lists if they are at each depth. -/
theorem foldl_congr_of_levels {step : β → α → β}
    (sorted : items.Pairwise fun left right => depth left ≤ depth right)
    (sortedOthers : others.Pairwise fun left right => depth left ≤ depth right)
    (levels : ∀ level state, (items.filter fun item => depth item = level).foldl step state =
      (others.filter fun item => depth item = level).foldl step state) (state : β) :
    items.foldl step state = others.foldl step state := by
  have below : ∀ level,
      (items.filter fun item => depth item < level).foldl step state =
        (others.filter fun item => depth item < level).foldl step state := by
    intro level
    induction level with
    | zero => simp
    | succ level ih =>
      simp only [Nat.lt_succ_iff]
      rw [filter_le_of_pairwise sorted, filter_le_of_pairwise sortedOthers, List.foldl_append,
        List.foldl_append, ih, levels]
  obtain ⟨bound, above⟩ := ((items ++ others).map depth).toFinset.exists_le
  have all : ∀ item ∈ items ++ others, decide (depth item < bound + 1) := by
    intro item member
    have within := above (depth item) (List.mem_toFinset.mpr (List.mem_map_of_mem member))
    exact decide_eq_true (Nat.lt_succ_of_le within)
  have whole := below (bound + 1)
  rwa [List.filter_eq_self.mpr fun item member => all item (List.mem_append_left _ member),
    List.filter_eq_self.mpr fun item member => all item (List.mem_append_right _ member)] at whole

theorem foldl_sortByDepth_congr {path : α → String} {step : β → α → β}
    (levels : ∀ level state,
      (items.filter fun item => Path.depth (path item) = level).foldl step state =
        (others.filter fun item => Path.depth (path item) = level).foldl step state) (state : β) :
    (sortByDepth path items).foldl step state = (sortByDepth path others).foldl step state := by
  have alike : ∀ (level : Nat) (items : List α),
      (sortByDepth path items).filter (fun item => Path.depth (path item) = level) =
        items.filter fun item => Path.depth (path item) = level := by
    refine fun level items => filter_sortByDepth fun left _ right _ here there => ?_
    rw [of_decide_eq_true here, of_decide_eq_true there]
  refine foldl_congr_of_levels pairwise_sortByDepth pairwise_sortByDepth (fun level state => ?_)
    state
  rw [alike, alike, levels]

end Levels

/-! ## Collections that positions imply -/

theorem map_path_widen (arrays : List DeclaredArray) (array : DeclaredArray) :
    (widen arrays array).map DeclaredArray.path =
      if (arrays.map DeclaredArray.path).contains array.path then arrays.map DeclaredArray.path
      else arrays.map DeclaredArray.path ++ [array.path] := by
  have known : (arrays.map DeclaredArray.path).contains array.path =
      arrays.any fun other => other.path = array.path := by
    rw [Bool.eq_iff_iff, List.contains_iff_mem, List.mem_map, List.any_eq_true]
    simp
  rw [widen, known]
  split
  · rw [List.map_map]
    refine List.map_congr_left fun other _ => ?_
    rw [Function.comp_apply]
    split
    · rfl
    · rfl
  · rw [List.map_append, List.map_singleton]

/-- Widened collections have one entry a path. -/
theorem map_path_foldl_widen (found : List DeclaredArray) :
    (found.foldl widen []).map DeclaredArray.path = distinct (found.map DeclaredArray.path) := by
  have behind : ∀ arrays : List DeclaredArray,
      (found.foldl widen arrays).map DeclaredArray.path =
        (found.map DeclaredArray.path).foldl
          (fun seen text => if seen.contains text then seen else seen ++ [text])
          (arrays.map DeclaredArray.path) := by
    induction found with
    | nil => exact fun _ => rfl
    | cons array found ih =>
      intro arrays
      rw [List.foldl_cons, ih, map_path_widen, List.map_cons, List.foldl_cons]
  exact behind []

theorem nodup_map_path_foldl_widen (found : List DeclaredArray) :
    ((found.foldl widen []).map DeclaredArray.path).Nodup := by
  rw [map_path_foldl_widen]
  exact nodup_distinct _

theorem elementsAt_of_mem {arrays : List DeclaredArray} {array : DeclaredArray}
    (once : (arrays.map DeclaredArray.path).Nodup) (member : array ∈ arrays) :
    elementsAt arrays array.path = array.iterations := by
  have present : (arrays.find? fun other => other.path = array.path).isSome :=
    List.find?_isSome.mpr ⟨array, member, decide_eq_true rfl⟩
  obtain ⟨first, found⟩ := Option.isSome_iff_exists.mp present
  have same : first.path = array.path := by simpa using List.find?_some found
  rw [elementsAt, found,
    List.inj_on_of_nodup_map once (List.mem_of_find?_eq_some found) member same]
  rfl

/-- Of the collections at one path, widening keeps the one with the most elements. -/
theorem mem_foldl_widen_iff {found : List DeclaredArray} {array : DeclaredArray} :
    array ∈ found.foldl widen [] ↔ array ∈ found ∧
      ∀ other ∈ found, other.path = array.path → other.iterations ≤ array.iterations := by
  have most : ∀ array ∈ found.foldl widen [], ∀ other ∈ found, other.path = array.path →
      other.iterations ≤ array.iterations := by
    intro array member other present same
    by_contra fewer
    have enough := lt_elementsAt_foldl_widen.mpr
      (.inr ⟨other, present, same, Nat.lt_of_not_le fewer⟩ :
        array.iterations < elementsAt [] array.path ∨ _)
    rw [elementsAt_of_mem (nodup_map_path_foldl_widen found) member] at enough
    exact Nat.lt_irrefl _ enough
  constructor
  · intro member
    exact ⟨(mem_of_mem_foldl_widen member).resolve_left List.not_mem_nil, most array member⟩
  · rintro ⟨member, largest⟩
    have path : array.path ∈ (found.foldl widen []).map DeclaredArray.path := by
      rw [map_path_foldl_widen, mem_distinct]
      exact List.mem_map_of_mem member
    obtain ⟨kept, present, same⟩ := List.mem_map.mp path
    have among := (mem_of_mem_foldl_widen present).resolve_left List.not_mem_nil
    have size := le_antisymm (largest kept among same) (most kept present array member same.symm)
    obtain ⟨keptPath, keptSize⟩ := kept
    obtain ⟨arrayPath, arraySize⟩ := array
    dsimp only at same size
    rwa [← same, ← size]

namespace Builder

variable {builder : Builder} {arrays : List DeclaredArray} {paths others flags more : List String}

/-! ## The same paths -/

theorem nodup_candidates (paths : List String) : (builder.candidates paths).Nodup :=
  (nodup_distinct _).filter _

theorem candidates_perm (same : ∀ path, path ∈ paths ↔ path ∈ others) :
    (builder.candidates paths).Perm (builder.candidates others) := by
  refine (List.perm_ext_iff_of_nodup (nodup_candidates _) (nodup_candidates _)).mpr fun path => ?_
  simp only [mem_candidates, same]

theorem distinct_perm {texts others : List String} (same : ∀ text, text ∈ texts ↔ text ∈ others) :
    (distinct texts).Perm (distinct others) := by
  refine (List.perm_ext_iff_of_nodup (nodup_distinct _) (nodup_distinct _)).mpr fun text => ?_
  rw [mem_distinct, mem_distinct, same]

theorem writesAt_perm {α : Type} {path : α → String} {value : α → List String → Json}
    {items others : List α} (order : items.Perm others) :
    (writesAt path value items).Perm (writesAt path value others) :=
  order.filterMap _

theorem nodup_leaves (paths : List String) : (leaves paths).Nodup :=
  (List.mergeSort_perm _ _).nodup_iff.mpr ((nodup_distinct _).filter _)

theorem leaves_perm (same : ∀ path, path ∈ paths ↔ path ∈ others) :
    (leaves paths).Perm (leaves others) := by
  refine (List.perm_ext_iff_of_nodup (nodup_leaves _) (nodup_leaves _)).mpr fun path => ?_
  simp only [mem_leaves, same]

theorem nodup_map_path_implied (declared : List DeclaredArray) (paths : List String) :
    ((builder.implied declared paths).map DeclaredArray.path).Nodup := by
  rw [implied]
  exact nodup_map_path_foldl_widen _

theorem implied_perm {declared : List DeclaredArray} (same : ∀ path, path ∈ paths ↔ path ∈ others) :
    (builder.implied declared paths).Perm (builder.implied declared others) := by
  have once : ∀ paths, (builder.implied declared paths).Nodup := fun paths =>
    List.Nodup.of_map _ (nodup_map_path_implied declared paths)
  refine (List.perm_ext_iff_of_nodup (once _) (once _)).mpr fun array => ?_
  simp only [implied, mem_foldl_widen_iff, List.mem_map, List.mem_filter, List.mem_flatMap, same]

/-! ## Events -/

theorem payloadOfEvents_perm {digestPaths others : List String} (order : digestPaths.Perm others)
    (events : String) : payloadOfEvents digestPaths events = payloadOfEvents others events := by
  rw [payloadOfEvents_eq, payloadOfEvents_eq]
  refine placeAll_perm_of_scalar (writesAt_perm (order.filter _)) ?_ ?_ _
  · intro write member other present same
    obtain ⟨path, -, keys, -, rfl⟩ := mem_writesAt.mp member
    obtain ⟨path', -, keys', -, rfl⟩ := mem_writesAt.mp present
    dsimp only at same
    rw [same]
  · intro write member
    obtain ⟨path, -, keys, -, rfl⟩ := mem_writesAt.mp member
    rfl

theorem placeDigest_perm {digestPaths others : List String} (order : digestPaths.Perm others)
    (digest : ∀ path ∈ digestPaths, isDigest path) (root : Json) :
    builder.placeDigest arrays digestPaths root = builder.placeDigest arrays others root := by
  have events : (distinct (digestPaths.map eventsOf)).Perm (distinct (others.map eventsOf)) :=
    distinct_perm fun text => (order.map eventsOf).mem_iff
  have values : (fun events (_ : List String) => builder.exampleEvents arrays digestPaths events) =
      fun events _ => builder.exampleEvents arrays others events := by
    funext events keys
    rw [exampleEvents, exampleEvents, payloadOfEvents_perm order]
  have writes : (builder.digestWrites arrays digestPaths).Perm
      (builder.digestWrites arrays others) := by
    rw [digestWrites, digestWrites, values]
    exact writesAt_perm events
  have once : ((builder.digestWrites arrays digestPaths).map Prod.fst).Nodup :=
    List.pairwise_map.mpr (pairwise_digestWrites digest)
  rw [placeDigest_eq, placeDigest_eq]
  refine placeAll_perm_of_length writes (fun write member other present => ?_)
    (fun write => length_of_mem_digestWrites digest) root
  exact List.inj_on_of_nodup_map once member present

/-! ## Collections -/

section Solid

variable (solid : ∀ path ∈ paths, Path.isSolid path)

include solid

/-- The path of an implied collection with keys is told by them. -/
theorem eq_ofKeys_of_mem_implied {declared : List DeclaredArray} {array : DeclaredArray}
    {keys : List String} (member : array ∈ builder.implied declared paths)
    (read : Path.keys? array.path = some keys) :
    keys ≠ [] ∧ (∀ key ∈ keys, (Segment.key key).isClean) ∧ array.path = Path.ofKeys keys := by
  have plain : Path.isSolid array.path ∧ ']' ∉ array.path.toList := by
    refine forall_implied (fun array => Path.isSolid array.path ∧ ']' ∉ array.path.toList)
      (fun path given array inside => ?_) array member
    cases steps : Path.split? path with
    | none =>
      rw [steps, Option.getD_none] at inside
      cases inside
    | some segments =>
      rw [steps, Option.getD_some] at inside
      obtain ⟨names, position, stands, rfl⟩ := mem_impliedBy.mp inside
      have among : ∀ name ∈ names, .key name ∈ segments := by
        intro name present
        obtain ⟨segment, here, named⟩ :=
          List.mem_filterMap.mp ((mem_positionsFrom stands).2.subset present)
        cases segment with
        | key => cases named; exact here
        | index => cases named
      have fits := Path.fits_of_parts? (Path.split?_eq_some.mp steps).2
      constructor
      · refine Path.isSolid_iff.mpr (Path.forall_mem_intercalate (by decide) fun name present => ?_)
        exact Path.isBlank_of_split? (solid path given) steps name (among name present)
      · intro closed
        have unclosed : ∀ name ∈ names, ∀ c ∈ name.toList, c ≠ ']' := by
          rintro name present _ held rfl
          exact (fits _ (among name present)).2 held
        exact Path.forall_mem_intercalate (by decide) unclosed _ closed rfl
  exact Path.eq_ofKeys_of_isSolid plain.1 plain.2 read

theorem placeArrays_perm (same : ∀ path, path ∈ paths ↔ path ∈ others) (root : Json) :
    builder.placeArrays arrays paths root = builder.placeArrays arrays others root := by
  rw [placeArrays, placeArrays]
  refine foldl_sortByDepth_congr (fun level root => ?_) root
  rw [List.filter_append, List.filter_append, List.foldl_append, List.foldl_append]
  -- the declared collections come first, and the implied ones may be written in any order
  generalize ((builder.declared arrays).filter _).foldl _ root = before
  rw [foldl_placeAt_eq, foldl_placeAt_eq]
  have read : ∀ array ∈ (builder.implied (builder.declared arrays) paths).filter
      (fun array => Path.depth array.path = level), ∀ keys, Path.keys? array.path = some keys →
        array ∈ builder.implied (builder.declared arrays) paths ∧
          array.path = Path.ofKeys keys ∧ keys.length = level := by
    intro array member keys found
    obtain ⟨implied, here⟩ := List.mem_filter.mp member
    obtain ⟨full, clean, path⟩ := eq_ofKeys_of_mem_implied solid implied found
    have depth := of_decide_eq_true here
    rw [path, Path.depth_ofKeys full clean] at depth
    exact ⟨implied, path, depth⟩
  have long : ∀ (value : DeclaredArray → List String → Json),
      ∀ write ∈ writesAt DeclaredArray.path value
          ((builder.implied (builder.declared arrays) paths).filter
            fun array => Path.depth array.path = level),
        write.1.length = level := by
    intro value write member
    obtain ⟨array, given, keys, found, rfl⟩ := mem_writesAt.mp member
    exact (read array given keys found).2.2
  refine placeAll_perm_of_length (writesAt_perm ((implied_perm same).filter _))
    (fun write member other present keys => ?_) (long _) before
  obtain ⟨array, given, keys, found, rfl⟩ := mem_writesAt.mp member
  obtain ⟨array', given', keys', found', rfl⟩ := mem_writesAt.mp present
  dsimp only at keys
  subst keys
  obtain ⟨implied, path, -⟩ := read array given _ found
  obtain ⟨implied', path', -⟩ := read array' given' _ found'
  rw [List.inj_on_of_nodup_map (nodup_map_path_implied _ _) implied implied'
    (path.trans path'.symm)]

/-! ## Values -/

theorem eq_ofKeys_of_mem_leaves {path : String} {keys : List String} (member : path ∈ leaves paths)
    (read : Path.keys? path = some keys) : path = Path.ofKeys keys := by
  obtain ⟨⟨asked, given, rfl⟩, -⟩ := mem_leaves.mp member
  cases steps : Path.split? (Path.stripIndices asked) with
  | none =>
    rw [Path.keys?, steps] at read
    cases read
  | some segments =>
    exact (Path.eq_ofKeys_of_isSolid (Path.isSolid_stripIndices (solid asked given))
      (Path.unclosed_stripIndices steps) read).2.2

theorem leafWrites_perm (same : ∀ path, path ∈ paths ↔ path ∈ others)
    (sameFlags : ∀ flag, flag ∈ flags ↔ flag ∈ more) (root : Json) :
    placeAll (builder.leafWrites flags paths) root =
      placeAll (builder.leafWrites more others) root := by
  have contains : ∀ path, (flags.map Path.stripIndices).contains path =
      (more.map Path.stripIndices).contains path := by
    intro path
    rw [Bool.eq_iff_iff, List.contains_iff_mem, List.contains_iff_mem]
    simp only [List.mem_map, sameFlags]
  have order : (builder.leafWrites flags paths).Perm (builder.leafWrites more others) := by
    simp only [leafWrites, contains]
    exact writesAt_perm (leaves_perm same)
  refine placeAll_perm_of_scalar order ?_ ?_ root
  · intro write member other present keys
    obtain ⟨path, given, keys, found, rfl⟩ := mem_writesAt.mp member
    obtain ⟨path', given', keys', found', rfl⟩ := mem_writesAt.mp present
    dsimp only [id] at keys found found'
    subst keys
    rw [eq_ofKeys_of_mem_leaves solid given found, eq_ofKeys_of_mem_leaves solid given' found']
  · intro write member
    obtain ⟨noItems, noMembers⟩ := plain_of_mem_leafWrites member
    generalize write.2 = value at noItems noMembers
    cases value with
    | array => cases noItems
    | object => cases noMembers
    | null | bool | number | string => rfl

end Solid

/-! ## Example data -/

/-- Paths without blanks make the same example data in whatever order they are given, and however
often, and so do flags. -/
theorem build_eq_of_mem_iff (builder : Builder) (arrays : List DeclaredArray)
    (solid : ∀ path ∈ paths ++ flags, Path.isSolid path)
    (same : ∀ path, path ∈ paths ↔ path ∈ others) (sameFlags : ∀ flag, flag ∈ flags ↔ flag ∈ more) :
    builder.build paths arrays flags = builder.build others arrays more := by
  have asked : ∀ path, path ∈ paths ++ flags ↔ path ∈ others ++ more := by
    intro path
    rw [List.mem_append, List.mem_append, same, sameFlags]
  have order := @candidates_perm builder _ _ asked
  have scalars : ∀ path, path ∈ builder.scalarPaths (paths ++ flags) ↔
      path ∈ builder.scalarPaths (others ++ more) := fun _ => (order.filter _).mem_iff
  have plain : ∀ path ∈ builder.scalarPaths (paths ++ flags), Path.isSolid path := by
    intro path member
    obtain ⟨⟨given, present, rfl⟩, -⟩ := mem_candidates.mp (List.mem_filter.mp member).1
    exact Path.isSolid_normalize (solid given present)
  have events := @placeDigest_perm builder arrays _ _ (order.filter isDigest) forall_isDigest
  have collections := @placeArrays_perm builder arrays _ _ plain scalars
  have values := @leafWrites_perm builder _ _ _ _ plain scalars sameFlags
  rw [build_eq_placeAll, build_eq_placeAll, placeAll_append, placeAll_append, placeAll_append,
    placeAll_append, ← placeDigest_eq, ← placeDigest_eq, ← placeArrays_eq, ← placeArrays_eq,
    digestPaths, digestPaths, events, collections, values]

/-- Two positions imply one collection, whichever comes first. -/
theorem build_eq_of_reversed_items :
    (standard "").build ["payload.items[1].name", "payload.items[2]", "steps.digest.events"]
        [⟨"payload.orders", 2⟩] ["payload.items.done", "payload.active"] =
      (standard "").build ["steps.digest.events", "payload.items[2]", "payload.items[1].name",
        "payload.items[2]"] [⟨"payload.orders", 2⟩] ["payload.active", "payload.items.done"] := by
  refine build_eq_of_mem_iff (standard "") [⟨"payload.orders", 2⟩] (by decide +kernel) ?_ ?_
  · intro path
    simp only [List.mem_cons, List.not_mem_nil, or_false]
    tauto
  · intro flag
    simp only [List.mem_cons, List.not_mem_nil, or_false]
    exact or_comm

end Builder

end MessageTemplate.Example
