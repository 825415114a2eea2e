import MessageTemplate.Proofs.Example.Digest

/-! # How many elements collections have

A collection gets its elements when it is written, unless an array or an object stands there. No
later write changes their number. Collections nearer to the root are written first, and only the
events of digest steps before all of them; so a collection has the elements it is written with,
unless digest steps have an object in its place. -/

namespace MessageTemplate.Example

open Json

/-! ## The order of collections -/

section Order

variable {α : Type} {path : α → String} {items : List α}

theorem depth_trans (first second third : α) :
    decide (Path.depth (path first) ≤ Path.depth (path second)) = true →
      decide (Path.depth (path second) ≤ Path.depth (path third)) = true →
        decide (Path.depth (path first) ≤ Path.depth (path third)) = true := by
  simp only [decide_eq_true_eq]
  exact Nat.le_trans

theorem depth_total (first second : α) :
    (decide (Path.depth (path first) ≤ Path.depth (path second)) ||
      decide (Path.depth (path second) ≤ Path.depth (path first))) = true := by
  simp only [Bool.or_eq_true, decide_eq_true_eq]
  exact Nat.le_total _ _

theorem pairwise_sortByDepth :
    (sortByDepth path items).Pairwise fun left right =>
      Path.depth (path left) ≤ Path.depth (path right) := by
  have sorted := List.pairwise_mergeSort (@depth_trans α path) depth_total items
  simp only [decide_eq_true_eq] at sorted
  exact sorted

/-- Sorting by depth keeps the order of items of one depth. -/
theorem filter_sortByDepth {among : α → Bool}
    (level : ∀ left ∈ items, ∀ right ∈ items, among left → among right →
      Path.depth (path left) ≤ Path.depth (path right)) :
    (sortByDepth path items).filter among = items.filter among := by
  have pairs : (items.filter among).Pairwise fun left right =>
      decide (Path.depth (path left) ≤ Path.depth (path right)) := by
    refine List.pairwise_of_forall_mem_list fun left leftIn right rightIn => ?_
    obtain ⟨leftGiven, leftAmong⟩ := List.mem_filter.mp leftIn
    obtain ⟨rightGiven, rightAmong⟩ := List.mem_filter.mp rightIn
    exact decide_eq_true (level left leftGiven right rightGiven leftAmong rightAmong)
  have kept := (List.sublist_mergeSort (@depth_trans α path) depth_total pairs
    List.filter_sublist).filter among
  rw [List.filter_filter] at kept
  simp only [Bool.and_self] at kept
  have order := List.mergeSort_perm items fun left right =>
    decide (Path.depth (path left) ≤ Path.depth (path right))
  exact (kept.eq_of_length (order.filter among).length_eq.symm).symm

/-- Sorting by depth keeps the order of the items at one path. -/
theorem find?_sortByDepth (text : String) :
    (sortByDepth path items).find? (fun item => path item = text) =
      items.find? fun item => path item = text := by
  rw [← List.head?_filter, ← List.head?_filter, filter_sortByDepth]
  intro left _ right _ leftAt rightAt
  rw [of_decide_eq_true leftAt, of_decide_eq_true rightAt]

end Order

/-! ## Later writes -/

/-- A write changes no number of elements. -/
theorem length?_written {value old : Json} {rest : List String} {count : Nat}
    (sized : old.length? = some count) :
    (written value rest (some old)).length? = some count := by
  cases old with
  | null | bool | number | string | object => cases sized
  | array items =>
    cases rest with
    | nil => exact sized
    | cons next rest =>
      rw [written, Option.getD_some, place_cons, throughArrays, throughItems_eq_map]
      simpa [length?, items?] using sized

theorem length?_repeated (count : Nat) (element : Json) :
    (repeated count element).length? = some count := by
  simp [repeated, length?, items?]

theorem everyBranch_length?_kept {writes : List Write} {names : List String} {root : Json}
    {count : Nat} (full : names ≠ [])
    (sized : EveryBranch (fun value => value.length? = some count) names root) :
    EveryBranch (fun value => value.length? = some count) names (placeAll writes root) :=
  everyBranch_placeAll_of_keeps full (fun _ _ _ _ _ sized => length?_written sized) sized

namespace Builder

variable {builder : Builder} {arrays : List DeclaredArray} {paths flags names : List String}

/-- Of the collections before the first one at a path, none leads through it. -/
theorem not_isPrefix_of_before {first array : DeclaredArray} {before after : List DeclaredArray}
    {others keys : List String} (plain : ∀ array ∈ arrays, Path.isClean array.path)
    (clean : ∀ path ∈ others, Path.isClean path)
    (full : names ≠ []) (named : ∀ name ∈ names, (Segment.key name).isClean)
    (split : builder.collections arrays others = before ++ first :: after)
    (here : first.path = Path.ofKeys names) (member : array ∈ before)
    (differs : array.path ≠ Path.ofKeys names) (read : Path.keys? array.path = some keys) :
    ¬ names <+: keys := by
  intro leads
  have among : array ∈ builder.collections arrays others := by
    rw [split]
    exact List.mem_append_left _ member
  obtain ⟨keys', full', named', path⟩ := exists_names_of_mem_collections plain clean among
  rw [path, Path.keys?_ofKeys full' named', Option.some.injEq] at read
  subst read
  have sorted := @pairwise_sortByDepth _ DeclaredArray.path
    (builder.declared arrays ++ builder.implied (builder.declared arrays) others)
  rw [← collections, split] at sorted
  have depths := (List.pairwise_append.mp sorted).2.2 array member first List.mem_cons_self
  rw [path, here, Path.depth_ofKeys full named, Path.depth_ofKeys full' named'] at depths
  exact differs (by rw [path, leads.eq_of_length_le depths])

section Clean

variable (clean : ∀ path ∈ paths ++ flags, Path.isClean path)

include clean

/-! ## Sizes -/

theorem length?_events {path : String} (member : path ∈ builder.digestPaths (paths ++ flags))
    (read : Path.keys? (eventsOf path) = some names) :
    EveryBranch (fun value => value.length? = some (builder.eventCount arrays (eventsOf path))) names
      (builder.build paths arrays flags) := by
  obtain ⟨step, events, -⟩ := keys_of_mem_digestPaths clean member
  have full : names ≠ [] := by
    cases events.symm.trans read
    exact List.cons_ne_nil _ _
  rw [build_eq_placeAll, placeAll_append]
  refine everyBranch_length?_kept full
    ((everyBranch_events forall_isDigest member read).mono fun value same => ?_)
  rw [same, exampleEvents, length?_repeated]

/-- The first collection at a path has the elements that it is written with, unless digest steps
have something in its place. -/
theorem length?_collection {first : DeclaredArray}
    (plain : ∀ array ∈ arrays, Path.isClean array.path) (full : names ≠ [])
    (named : ∀ name ∈ names, (Segment.key name).isClean)
    (found : (builder.collections arrays (builder.scalarPaths (paths ++ flags))).find?
      (fun array => array.path = Path.ofKeys names) = some first)
    (apart : ∀ path ∈ builder.digestPaths (paths ++ flags), Path.keys? (eventsOf path) ≠ some names)
    (free : ¬ builder.isInDigest (paths ++ flags) names) :
    EveryBranch (fun value => value.length? = some first.iterations) names
      (builder.build paths arrays flags) := by
  have scalar := @forall_isClean_scalarPaths builder _ clean
  obtain ⟨here, before, after, split, others⟩ := List.find?_eq_some_iff_append.mp found
  have here := of_decide_eq_true here
  have read : Path.keys? first.path = some names := by rw [here, Path.keys?_ofKeys full named]
  have apartBefore : ∀ array ∈ before, ∀ keys, Path.keys? array.path = some keys →
      ¬ names <+: keys := by
    intro array member keys whole
    have differs : array.path ≠ Path.ofKeys names := by simpa using others array member
    exact not_isPrefix_of_before plain scalar full named split here member differs whole
  rw [build_eq_placeAll, placeAll_append, placeAll_append, collectionWrites, split,
    writesAt_append_cons read]
  refine everyBranch_length?_kept full (everyBranch_placeAll_of_vacant full ?_ ?_ ?_)
  · refine vacant_placeAll full (fun write written start => ?_) (fun write written more whole => ?_)
      (vacant_digestWrites clean full apart free)
    · obtain ⟨array, member, keys, found, rfl⟩ := mem_writesAt.mp written
      exact absurd start (apartBefore array member keys found)
    · obtain ⟨array, member, keys, found, rfl⟩ := mem_writesAt.mp written
      refine (bare_repeated array.iterations).eachBranch_vacant fun empty => ?_
      subst empty
      rw [List.append_nil] at whole
      exact apartBefore array member keys found (whole ▸ List.prefix_rfl)
  · exact length?_repeated first.iterations _
  · intro write written rest whole old sized
    exact length?_written sized

/-- Each declared collection has in every branch as many elements as the first declaration of its
path gives it, and the limit leaves, unless digest steps have an object in its place. -/
theorem build_sizes_declared {array : DeclaredArray}
    (plain : ∀ array ∈ arrays, Path.isClean array.path) (given : array ∈ arrays)
    (read : Path.keys? array.path = some names)
    (free : ¬ builder.isInDigest (paths ++ flags) names) :
    ∃ first,
      arrays.find? (fun other => Path.stripIndices other.path = Path.stripIndices array.path) =
        some first ∧
      EveryBranch (fun value => value.length? = some (min first.iterations builder.maxIterations))
        names (builder.build paths arrays flags) := by
  obtain ⟨full, named⟩ := Path.clean_of_keys? (plain array given) read
  have path := Path.stripIndices_of_keys? read
  have some : (arrays.find? fun other =>
      Path.stripIndices other.path = Path.stripIndices array.path).isSome :=
    List.find?_isSome.mpr ⟨array, given, decide_eq_true rfl⟩
  obtain ⟨first, found⟩ := Option.isSome_iff_exists.mp some
  refine ⟨first, found, ?_⟩
  rw [path] at found
  by_cases events : ∃ path ∈ builder.digestPaths (paths ++ flags),
      Path.keys? (eventsOf path) = .some names
  · obtain ⟨digest, member, group⟩ := events
    have sized := @length?_events builder arrays paths flags names clean digest member group
    rw [eventCount, eventsOf_eq_ofKeys (forall_isDigest digest member) group, found] at sized
    exact sized
  · push Not at events
    have here : (builder.declared arrays).find? (fun array => array.path = Path.ofKeys names) =
        .some ⟨Path.stripIndices first.path, min first.iterations builder.maxIterations⟩ := by
      rw [declared, List.find?_map]
      exact congrArg (Option.map _) found
    have collection : (builder.collections arrays (builder.scalarPaths (paths ++ flags))).find?
        (fun array => array.path = Path.ofKeys names) =
          .some ⟨Path.stripIndices first.path, min first.iterations builder.maxIterations⟩ := by
      rw [collections, find?_sortByDepth, List.find?_append, here, Option.some_or]
    exact length?_collection clean plain full named collection events free

end Clean

/-- The elements of collections are collections with two elements, as the first declaration of their
path says. -/
theorem build_sizes_orders :
    ∃ first, [(⟨"payload.orders", 60⟩ : DeclaredArray), ⟨"payload.orders.items", 2⟩,
        ⟨"steps.digest.events", 4⟩, ⟨"payload.orders[1].items", 7⟩].find?
          (fun other =>
            Path.stripIndices other.path = Path.stripIndices "payload.orders[1].items") =
        some first ∧
      EveryBranch (fun value => value.length? = some (min first.iterations 50))
        ["payload", "orders", "items"]
        ((standard "").build ["payload.orders[4].items.name", "steps.digest.events.payload.id"]
          [⟨"payload.orders", 60⟩, ⟨"payload.orders.items", 2⟩, ⟨"steps.digest.events", 4⟩,
            ⟨"payload.orders[1].items", 7⟩] ["payload.admin"]) := by
  have clean : ∀ path ∈ ["payload.orders[4].items.name", "steps.digest.events.payload.id"] ++
      ["payload.admin"], Path.isClean path := by decide +kernel
  have plain : ∀ array ∈ [(⟨"payload.orders", 60⟩ : DeclaredArray), ⟨"payload.orders.items", 2⟩,
      ⟨"steps.digest.events", 4⟩, ⟨"payload.orders[1].items", 7⟩], Path.isClean array.path := by
    decide +kernel
  exact @build_sizes_declared (standard "") _ _ _ _ clean ⟨"payload.orders[1].items", 7⟩ plain
    (by decide) (by decide +kernel) (by decide +kernel)

/-- In example data for a path with a collection of two elements, both of which are clean, no two
elements stand behind the names of the collection. -/
def LacksElements (path collection : String) (keys : List String) : Prop :=
  Path.isClean path ∧ Path.isClean collection ∧ Path.keys? collection = some keys ∧
    ¬ EveryBranch (fun value => value.length? = some 2) keys
      ((standard "").build [path] [⟨collection, 2⟩] [])

instance (path collection : String) (keys : List String) :
    Decidable (LacksElements path collection keys) :=
  inferInstanceAs (Decidable (_ ∧ _))

/-- Where digest steps have an object, a collection has no elements: as the data of a step, as the
payload of an event, or behind the payload. -/
theorem build_keeps_objects_of_digest :
    LacksElements "steps.d.events" "steps.d" ["steps", "d"] ∧
      LacksElements "steps.d.events" "steps.d.events.payload" ["steps", "d", "events", "payload"] ∧
      LacksElements "steps.d.events.payload.items.name" "steps.d.events.payload.items"
        ["steps", "d", "events", "payload", "items"] := by
  decide +kernel

end Builder

end MessageTemplate.Example
