import MessageTemplate.Proofs.Example.Arrays
import MessageTemplate.Proofs.Example.Sizes

/-! # Positions in example data

A path with positions is read step by step if its names can be followed everywhere, each position
finds an array with enough elements, and none stands right behind another one. In example data
without declared collections, the positions of all paths imply the arrays, and the arrays have the
elements that they need, unless digest steps have something in their place. So positions find
elements there (`build_reads_positions`), and nowhere else (`hasElement_of_readable`). -/

namespace MessageTemplate.Example

open Json

/-! ## Reading positions -/

/-- An array has an element at a position. -/
def HasItem (position : Nat) (value : Json) : Prop :=
  ∃ items, value.items? = some items ∧ position < items.length

theorem hasItem_iff_of_length? {value : Json} {position count : Nat}
    (sized : value.length? = some count) : HasItem position value ↔ position < count := by
  obtain ⟨items, array, rfl⟩ := Option.map_eq_some_iff.mp sized
  constructor
  · rintro ⟨others, same, enough⟩
    cases array.symm.trans same
    exact enough
  · intro enough
    exact ⟨items, array, enough⟩

theorem positionsFrom_append (names more : List String) (segments : List Segment) :
    Path.positionsFrom (names ++ more) segments =
      (Path.positionsFrom more segments).map fun (before, position) =>
        (names ++ before, position) := by
  induction segments generalizing more with
  | nil => rfl
  | cons segment rest ih =>
    cases segment with
    | key name =>
      rw [Path.positionsFrom, Path.positionsFrom, List.append_assoc, ih]
    | index position => exact congrArg _ (ih more)

/-- Behind the first name of a path, its positions are those of the rest. -/
theorem mem_positionsFrom_singleton {name : String} {names : List String} {segments : List Segment}
    {position : Nat} :
    (names, position) ∈ Path.positionsFrom [name] segments ↔
      ∃ rest, names = name :: rest ∧ (rest, position) ∈ Path.positionsFrom [] segments := by
  have moved := positionsFrom_append [name] [] segments
  rw [List.append_nil] at moved
  rw [moved, List.mem_map]
  constructor
  · rintro ⟨⟨rest, other⟩, member, same⟩
    cases same
    exact ⟨rest, rfl, member⟩
  · rintro ⟨rest, rfl, member⟩
    exact ⟨_, member, rfl⟩

theorem ne_nil_of_mem_positionsFrom {name : String} {names : List String} {rest : List Segment}
    {position : Nat} (member : (names, position) ∈ Path.positionsFrom [] (.key name :: rest)) :
    names ≠ [] := by
  obtain ⟨others, rfl, -⟩ := mem_positionsFrom_singleton.mp member
  exact List.cons_ne_nil _ _

theorem everyBranch_of_mem_items {good : Json → Prop} {names : List String} {value item : Json}
    {items : List Json} (full : names ≠ []) (reached : EveryBranch good names value)
    (array : value.items? = some items) (member : item ∈ items) : EveryBranch good names item := by
  cases reached with
  | here => exact absurd rfl full
  | member => cases array
  | elements all =>
    cases array
    exact all item member

/-- Steps can be read one by one if their names lead on everywhere, each position finds an element
in every branch, and none stands right behind another one. -/
theorem readable_of_everyBranch {segments : List Segment} {value : Json}
    (spaced : Path.isSpaced segments)
    (reached : EveryBranch (fun _ => True) (segments.filterMap Segment.key?) value)
    (sized : ∀ names position, (names, position) ∈ Path.positionsFrom [] segments →
      EveryBranch (HasItem position) names value) : Readable segments value := by
  induction segments generalizing value with
  | nil => exact .here
  | cons segment rest ih =>
    cases segment with
    | key name =>
      apply readable_key_iff.mpr
      intro inner inside
      obtain ⟨next, found, later⟩ := everyBranch_cons_iff.mp reached inner inside
      refine ⟨next, found, ih spaced later fun names position member => ?_⟩
      have further := sized (name :: names) position
        (mem_positionsFrom_singleton.mpr ⟨names, rfl, member⟩)
      obtain ⟨other, same, holds⟩ := everyBranch_cons_iff.mp further inner inside
      cases found.symm.trans same
      exact holds
    | index position =>
      obtain ⟨items, array, enough⟩ : HasItem position value := by
        cases sized [] position List.mem_cons_self with
        | here holds => exact holds
      have present : items[position] ∈ items := List.getElem_mem enough
      refine readable_index_iff.mpr
        ⟨items, array, items[position], List.getElem?_eq_getElem enough, ?_⟩
      cases rest with
      | nil => exact .here
      | cons next rest =>
        cases next with
        | index => cases spaced
        | key name =>
          refine ih spaced ?_ fun names other member => ?_
          · exact everyBranch_of_mem_items (List.cons_ne_nil _ _) reached array present
          · exact everyBranch_of_mem_items (ne_nil_of_mem_positionsFrom member)
              (sized names other (List.mem_cons_of_mem _ member)) array present

/-! ## What positions read -/

section Sound

variable {arrays : List String → Prop} {names : List String} {value : Json}

theorem Sound.of_mem_spread {inner : Json} (sound : Sound arrays names value)
    (inside : inner ∈ spread value) : Sound arrays names inner := by
  cases kind : value.items? with
  | none =>
    rw [spread_of_plain kind, List.mem_singleton] at inside
    rwa [inside]
  | some items =>
    cases value with
    | null | bool | number | string | object => cases kind
    | array items =>
      cases sound with
      | scalar plain => cases plain
      | array _ flat all =>
        rw [spread_array] at inside
        obtain ⟨item, member, here⟩ := List.mem_flatMap.mp inside
        rw [spread_of_plain (flat item member), List.mem_singleton] at here
        rw [here]
        exact all item member

/-- Where arrays hold no arrays, steps that are read have no position right behind another one, and
an array stands behind the names before each position. -/
theorem Sound.of_readable {segments : List Segment} (sound : Sound arrays names value)
    (full : Full value) (reads : Readable segments value) :
    Path.isSpaced segments ∧ ∀ before position,
      (before, position) ∈ Path.positionsFrom names segments → arrays before := by
  induction segments generalizing names value with
  | nil => exact ⟨rfl, fun _ _ missing => nomatch missing⟩
  | cons segment rest ih =>
    cases segment with
    | key name =>
      obtain ⟨inner, inside⟩ := List.exists_mem_of_ne_nil _ full.spread_ne_nil
      obtain ⟨next, found, later⟩ := readable_key_iff.mp reads inner inside
      exact ih ((sound.of_mem_spread inside).of_member? found)
        ((full.of_mem_spread inside).of_member? found) later
    | index position =>
      obtain ⟨items, array, item, found, later⟩ := readable_index_iff.mp reads
      have member := List.mem_of_getElem? found
      cases value with
      | null | bool | number | string | object => cases array
      | array items =>
        cases array
        cases sound with
        | scalar plain => cases plain
        | array here flat all =>
          cases full with
          | scalar plain => cases plain
          | array _ fullAll =>
            obtain ⟨spaced, inside⟩ := ih (all item member) (fullAll item member) later
            constructor
            · cases rest with
              | nil => rfl
              | cons next rest =>
                cases next with
                | key name => exact spaced
                | index other =>
                  obtain ⟨inner, stands, -⟩ := readable_index_iff.mp later
                  cases (flat item member).symm.trans stands
            · intro before other present
              rcases List.mem_cons.mp present with first | further
              · cases first
                exact here
              · exact inside before other further

end Sound

/-- A position that is read finds an element of what stands behind the names before it. -/
theorem exists_hasItem_of_readable {good : Json → Prop} {segments : List Segment} {value : Json}
    {names : List String} {position : Nat} (reads : Readable segments value) (full : Full value)
    (spaced : Path.isSpaced segments) (member : (names, position) ∈ Path.positionsFrom [] segments)
    (reached : EveryBranch good names value) : ∃ found, good found ∧ HasItem position found := by
  induction segments generalizing names value with
  | nil => cases member
  | cons segment rest ih =>
    cases segment with
    | key name =>
      obtain ⟨others, rfl, further⟩ := mem_positionsFrom_singleton.mp member
      obtain ⟨inner, inside⟩ := List.exists_mem_of_ne_nil _ full.spread_ne_nil
      obtain ⟨next, found, later⟩ := readable_key_iff.mp reads inner inside
      obtain ⟨other, same, holds⟩ := everyBranch_cons_iff.mp reached inner inside
      cases found.symm.trans same
      exact ih later ((full.of_mem_spread inside).of_member? found) spaced further holds
    | index first =>
      obtain ⟨items, array, item, found, later⟩ := readable_index_iff.mp reads
      rcases List.mem_cons.mp member with here | further
      · cases here
        cases reached with
        | here holds =>
          exact ⟨value, holds, items, array, (List.getElem?_eq_some_iff.mp found).1⟩
      · cases rest with
        | nil => cases further
        | cons next rest =>
          cases next with
          | index => cases spaced
          | key name =>
            have present := List.mem_of_getElem? found
            exact ih later (full.of_mem_items array present) spaced further
              (everyBranch_of_mem_items (ne_nil_of_mem_positionsFrom further) reached array present)

/-! ## Collections that positions imply -/

/-- The number of elements that a collection at a path has. -/
def elementsAt (arrays : List DeclaredArray) (path : String) : Nat :=
  ((arrays.find? fun array => array.path = path).map DeclaredArray.iterations).getD 0

theorem elementsAt_widen (arrays : List DeclaredArray) (array : DeclaredArray) (path : String) :
    elementsAt (widen arrays array) path =
      if array.path = path then max (elementsAt arrays path) array.iterations
      else elementsAt arrays path := by
  rw [widen]
  split
  · next known =>
    obtain ⟨old, member, same⟩ := List.any_eq_true.mp known
    have kept : ∀ other : DeclaredArray, (if other.path = array.path then
        { other with iterations := max other.iterations array.iterations } else other).path =
          other.path := by
      intro other
      split
      · rfl
      · rfl
    simp only [elementsAt, List.find?_map, Function.comp_def, kept]
    cases found : arrays.find? fun other => decide (other.path = path) with
    | none =>
      have apart : array.path ≠ path := by
        rintro rfl
        exact List.find?_eq_none.mp found old member same
      rw [if_neg apart]
      rfl
    | some other =>
      obtain rfl : other.path = path := by simpa using List.find?_some found
      by_cases same : array.path = other.path
      · simp [same]
      · simp [same, Ne.symm same]
  · next fresh =>
    simp only [elementsAt, List.find?_append]
    by_cases same : array.path = path
    · subst same
      have none : arrays.find? (fun other => decide (other.path = array.path)) = none := by
        rw [List.find?_eq_none]
        intro other member here
        exact fresh (List.any_eq_true.mpr ⟨other, member, here⟩)
      simp [none]
    · simp [same]

/-- A collection has as many elements as some position needs, and no more. -/
theorem lt_elementsAt_foldl_widen {arrays found : List DeclaredArray} {path : String}
    {position : Nat} :
    position < elementsAt (found.foldl widen arrays) path ↔
      position < elementsAt arrays path ∨
        ∃ array ∈ found, array.path = path ∧ position < array.iterations := by
  induction found generalizing arrays with
  | nil => simp
  | cons array found ih =>
    rw [List.foldl_cons, ih, elementsAt_widen, List.exists_mem_cons_iff, ← or_assoc]
    refine or_congr_left ?_
    split
    · next same => simp [same]
    · next other => simp [other]

theorem exists_of_lt_elementsAt {arrays : List DeclaredArray} {path : String} {position : Nat}
    (enough : position < elementsAt arrays path) : ∃ array ∈ arrays, array.path = path := by
  rw [elementsAt] at enough
  cases found : arrays.find? fun array => decide (array.path = path) with
  | none => simp [found] at enough
  | some array =>
    exact ⟨array, List.mem_of_find?_eq_some found, by simpa using List.find?_some found⟩

namespace Builder

variable {builder : Builder} {paths flags names : List String} {position : Nat}

/-- Positions imply a collection with elements up to the last one, and the limit. -/
theorem lt_elementsAt_implied (clean : ∀ path ∈ paths, Path.isClean path) (full : names ≠ [])
    (named : ∀ name ∈ names, (Segment.key name).isClean) :
    position < elementsAt (builder.implied [] paths) (Path.ofKeys names) ↔
      position < builder.maxIterations ∧ ∃ path ∈ paths, ∃ segments,
        Path.split? path = some segments ∧ ∃ other, position ≤ other ∧
          (names, other) ∈ Path.positionsFrom [] segments := by
  have none : ¬ position < elementsAt [] (Path.ofKeys names) := Nat.not_lt_zero position
  simp only [implied, List.any_nil, Bool.not_false, List.filter_true, lt_elementsAt_foldl_widen,
    none, false_or, List.mem_map, List.mem_flatMap]
  constructor
  · rintro ⟨_, ⟨array, ⟨path, given, inside⟩, rfl⟩, here, below⟩
    obtain ⟨segments, read, -⟩ := Path.exists_clean_of_isClean (clean path given)
    rw [read, Option.getD_some] at inside
    obtain ⟨before, other, member, rfl⟩ := mem_impliedBy.mp inside
    obtain ⟨full', named'⟩ := clean_of_mem_positionsFrom (clean path given) read member
    rw [Path.intercalate_eq_ofKeys full' named'] at here
    obtain rfl := Path.ofKeys_injective full' named' full named here
    dsimp only at below
    exact ⟨by omega, path, given, segments, read, other, by omega, member⟩
  · rintro ⟨limit, path, given, segments, read, other, below, member⟩
    refine ⟨_, ⟨⟨".".intercalate names, other + 1⟩, ⟨path, given, ?_⟩, rfl⟩, ?_, ?_⟩
    · rw [read, Option.getD_some]
      exact mem_impliedBy.mpr ⟨names, other, member, rfl⟩
    · exact Path.intercalate_eq_ofKeys full named
    · dsimp only
      omega

/-- There is an element behind the events of digest steps, or where another position needs it and no
object stands for the sake of digest steps. -/
theorem hasElement_iff {asked : List String} : builder.hasElement asked names position ↔
    (∃ path ∈ builder.digestPaths asked, Path.keys? (eventsOf path) = some names) ∨
      ¬ builder.isInDigest asked names ∧ ∃ path ∈ builder.scalarPaths asked, ∃ segments,
        Path.split? path = some segments ∧ ∃ other, position ≤ other ∧
          (names, other) ∈ Path.positionsFrom [] segments := by
  have among : ∀ path, ((Path.positionsFrom [] ((Path.split? path).getD [])).any
      fun (before, other) => before = names && position ≤ other) ↔ ∃ segments,
        Path.split? path = some segments ∧ ∃ other, position ≤ other ∧
          (names, other) ∈ Path.positionsFrom [] segments := by
    intro path
    rw [List.any_eq_true]
    cases Path.split? path with
    | none => simp [Path.positionsFrom]
    | some segments =>
      simp [and_comm]
  simp only [hasElement, List.partition_eq_filter_filter, Bool.or_eq_true, Bool.and_eq_true,
    List.any_eq_true, among, digestPaths, scalarPaths, Bool.not_eq_true', Bool.not_eq_true,
    decide_eq_true_eq]
  rfl

section Clean

variable (clean : ∀ path ∈ paths ++ flags, Path.isClean path)

include clean

/-- A collection that positions imply has the elements that they need, unless digest steps have
something in its place. -/
theorem length?_implied {array : DeclaredArray}
    (implied : array ∈ builder.implied [] (builder.scalarPaths (paths ++ flags)))
    (read : Path.keys? array.path = some names)
    (apart : ¬ ∃ path ∈ builder.digestPaths (paths ++ flags),
      Path.keys? (eventsOf path) = some names)
    (free : ¬ builder.isInDigest (paths ++ flags) names) :
    names ≠ [] ∧ (∀ name ∈ names, (Segment.key name).isClean) ∧
      EveryBranch (fun value => value.length? =
        some (elementsAt (builder.implied [] (builder.scalarPaths (paths ++ flags)))
          (Path.ofKeys names))) names (builder.build paths [] flags) := by
  have plain := @forall_isClean_scalarPaths builder _ clean
  obtain ⟨others, full, named, written, -⟩ := exists_names_of_mem_implied plain implied
  obtain rfl : others = names := by
    rw [written, Path.keys?_ofKeys full named] at read
    exact Option.some.inj read
  refine ⟨full, named, ?_⟩
  have present : ((builder.implied [] (builder.scalarPaths (paths ++ flags))).find? fun other =>
      other.path = Path.ofKeys others).isSome :=
    List.find?_isSome.mpr ⟨array, implied, decide_eq_true written⟩
  obtain ⟨first, found⟩ := Option.isSome_iff_exists.mp present
  have collection : (builder.collections [] (builder.scalarPaths (paths ++ flags))).find?
      (fun other => other.path = Path.ofKeys others) = some first := by
    rw [collections, find?_sortByDepth]
    exact found
  push Not at apart
  rw [elementsAt, found]
  exact length?_collection clean (List.forall_mem_nil _) full named collection apart free

/-! ## Positions that are read -/

theorem everyBranch_of_mem_digestPaths {path : String} {keys : List String}
    (member : path ∈ builder.digestPaths (paths ++ flags)) (read : Path.keys? path = some keys) :
    EveryBranch (fun _ => True) keys
      (placeAll (builder.digestWrites [] (builder.digestPaths (paths ++ flags))) (.object [])) := by
  obtain ⟨-, -, segments, -, -, faithful, rfl, -⟩ :=
    exists_asked_of_mem_candidates clean (List.mem_filter.mp member).1
  rw [Path.keys?_of_split? (Path.split?_join faithful.toTidy), Option.some.injEq] at read
  rw [← read]
  exact everyBranch_of_isDigest forall_isDigest faithful member

/-- Before collections are written, there is an object wherever one stands for the sake of digest
steps. -/
theorem everyBranch_of_isInDigest (inside : builder.isInDigest (paths ++ flags) names) :
    EveryBranch (isContainer ·) names
      (placeAll (builder.digestWrites [] (builder.digestPaths (paths ++ flags))) (.object [])) := by
  -- what leads on from the names is there, so they lead to an object
  have further : ∀ keys, names <+: keys → names ≠ keys → EveryBranch (fun _ => True) keys
      (placeAll (builder.digestWrites [] (builder.digestPaths (paths ++ flags))) (.object [])) →
      EveryBranch (isContainer ·) names (placeAll
        (builder.digestWrites [] (builder.digestPaths (paths ++ flags))) (.object [])) := by
    rintro keys ⟨more, rfl⟩ differs reached
    obtain ⟨name, rest, rfl⟩ := List.exists_cons_of_ne_nil fun none : more = [] =>
      differs (by rw [none, List.append_nil])
    exact everyBranch_isContainer reached
  obtain ⟨path, member, events, keys, group, read, -, start | ⟨start, differs⟩⟩ :=
    (isInDigest_iff clean).mp inside
  · have payload : EveryBranch (isContainer ·) (events ++ ["payload"])
        (placeAll (builder.digestWrites [] (builder.digestPaths (paths ++ flags))) (.object [])) :=
      everyBranch_digestWrites forall_isDigest member group
        (.here (isContainer_payloadOfEvents _ _))
    by_cases same : names = events ++ ["payload"]
    · rw [same]
      exact payload
    · exact further _ start same (payload.mono fun _ _ => trivial)
  · exact further keys start differs (everyBranch_of_mem_digestPaths clean member read)

/-- Without declared collections, arrays stand behind the events of digest steps, and behind names
before a position where there is no object for the sake of digest steps. -/
theorem sound_build_of_positions :
    Sound (fun names => (∃ path ∈ builder.digestPaths (paths ++ flags),
        Path.keys? (eventsOf path) = some names) ∨
      ¬ builder.isInDigest (paths ++ flags) names ∧
        ∃ array ∈ builder.implied [] (builder.scalarPaths (paths ++ flags)),
          Path.keys? array.path = some names) [] (builder.build paths [] flags) := by
  refine sound_build (fun path member keys group => .inl ⟨path, member, group⟩) ?_
  intro array member keys read
  by_cases inside : builder.isInDigest (paths ++ flags) keys
  · exact .inr (everyBranch_of_isInDigest clean inside)
  · refine .inl (.inr ⟨inside, array, ?_, read⟩)
    rcases mem_collections.mp member with declared | implied
    · cases declared
    · exact implied

/-- Steps that are read from example data without declared collections have no position right behind
another one, and there are elements for each of them. -/
theorem hasElement_of_readable {segments : List Segment} (events : 1 ≤ builder.digestEvents)
    (some : 1 ≤ builder.maxIterations) (reads : Readable segments (builder.build paths [] flags)) :
    Path.isSpaced segments ∧ ∀ names position,
      (names, position) ∈ Path.positionsFrom [] segments →
        builder.hasElement (paths ++ flags) names position := by
  have full : Full (builder.build paths [] flags) := full_build (List.forall_mem_nil _) some events
  obtain ⟨spaced, arrays⟩ := (sound_build_of_positions clean).of_readable full reads
  refine ⟨spaced, fun names position member => hasElement_iff.mpr ?_⟩
  by_cases digest : ∃ path ∈ builder.digestPaths (paths ++ flags),
      Path.keys? (eventsOf path) = .some names
  · exact .inl digest
  · obtain ⟨free, array, implied, read⟩ := (arrays names position member).resolve_left digest
    obtain ⟨fullNames, named, sized⟩ := length?_implied clean implied read digest free
    obtain ⟨found, count, enough⟩ := exists_hasItem_of_readable reads full spaced member sized
    have plain := @forall_isClean_scalarPaths builder _ clean
    have below := (lt_elementsAt_implied plain fullNames named).mp
      ((hasItem_iff_of_length? count).mp enough)
    exact .inr ⟨free, below.2⟩

/-! ## Reading the positions of a path -/

/-- Where there is an element, every branch has one, as far as the limits leave it. -/
theorem everyBranch_hasItem (element : builder.hasElement (paths ++ flags) names position)
    (limit : position < builder.maxIterations)
    (events : ∀ step, names = ["steps", step, "events"] → position < builder.digestEvents) :
    EveryBranch (HasItem position) names (builder.build paths [] flags) := by
  by_cases digest : ∃ path ∈ builder.digestPaths (paths ++ flags),
      Path.keys? (eventsOf path) = some names
  · obtain ⟨path, member, group⟩ := digest
    obtain ⟨step, shape, -⟩ := keys_of_mem_digestPaths clean member
    have count : builder.eventCount [] (eventsOf path) =
        min builder.digestEvents builder.maxIterations := rfl
    have below := events step (Option.some.inj (group.symm.trans shape))
    exact (length?_events clean member group).mono fun value sized =>
      (hasItem_iff_of_length? sized).mpr (by omega)
  · obtain ⟨free, implying⟩ := (hasElement_iff.mp element).resolve_left digest
    have plain := @forall_isClean_scalarPaths builder _ clean
    obtain ⟨path, member, segments, read, other, -, inside⟩ := id implying
    obtain ⟨full, named⟩ := clean_of_mem_positionsFrom (plain path member) read inside
    have enough := (lt_elementsAt_implied plain full named).mpr ⟨limit, implying⟩
    obtain ⟨array, implied, written⟩ := exists_of_lt_elementsAt enough
    have group : Path.keys? array.path = some names := by rw [written, Path.keys?_ofKeys full named]
    exact (length?_implied clean implied group digest free).2.2.mono fun value sized =>
      (hasItem_iff_of_length? sized).mpr enough

/-- A path with a namespace is read step by step from the example data without declared
collections that is made for it, if its positions stay below the limits and none stands right behind
another one, and if there are elements for them. -/
theorem build_reads_positions {path : String} {segments : List Segment}
    (asked : path ∈ paths ++ flags) (read : Path.split? path = some segments)
    (named : builder.isNamespaced (Path.normalize path))
    (limits : ∀ names position, (names, position) ∈ Path.positionsFrom [] segments →
      position < builder.maxIterations ∧
        ∀ step, names = ["steps", step, "events"] → position < builder.digestEvents)
    (spaced : Path.isSpaced segments)
    (elements : ∀ names position, (names, position) ∈ Path.positionsFrom [] segments →
      builder.hasElement (paths ++ flags) names position) :
    Readable segments (builder.build paths [] flags) := by
  refine readable_of_everyBranch spaced ?_ fun names position member => ?_
  · refine everyBranch_of_mem_requestedKeys clean (List.forall_mem_nil _) ?_
    exact mem_requestedKeys.mpr (.inl ⟨path, asked, named, Path.keys?_of_split? read⟩)
  · obtain ⟨limit, events⟩ := limits names position member
    exact everyBranch_hasItem clean (elements names position member) limit events

end Clean

/-- Positions in collections of collections are read from the elements that paths and flags
imply. -/
theorem build_reads_positions_of_orders :
    Readable [.key "payload", .key "orders", .index 2, .key "items", .index 1, .key "name"]
      ((standard "").build
        ["payload.orders[2].items[1].name", "steps.d.events[1].payload.id"] []
        ["payload.orders[4].done"]) := by
  have clean : ∀ path ∈ ["payload.orders[2].items[1].name", "steps.d.events[1].payload.id"] ++
      ["payload.orders[4].done"], Path.isClean path := by decide +kernel
  refine @build_reads_positions (standard "") _ _ clean "payload.orders[2].items[1].name" _
    (by decide) (by decide +kernel) (by decide +kernel) ?_ (by decide) ?_
  · intro names position member
    simp only [Path.positionsFrom, List.mem_cons, Prod.mk.injEq, List.not_mem_nil, or_false]
      at member
    rcases member with ⟨rfl, rfl⟩ | ⟨rfl, rfl⟩
    · exact ⟨by decide, fun step same => by simp at same⟩
    · exact ⟨by decide, fun step same => by simp at same⟩
  · intro names position member
    simp only [Path.positionsFrom, List.mem_cons, Prod.mk.injEq, List.not_mem_nil, or_false]
      at member
    rcases member with ⟨rfl, rfl⟩ | ⟨rfl, rfl⟩
    · decide +kernel
    · decide +kernel

/-- A clean path with a namespace and positions below all limits cannot be read from the example data
for it and some others. -/
def MissesPosition (path : String) (others : List String) (segments : List Segment) : Prop :=
  (∀ other ∈ path :: others, Path.isClean other) ∧ Path.split? path = some segments ∧
    (Path.normalize path).toList.contains '.' ∧
    (∀ found ∈ Path.positionsFrom [] segments,
      found.2 < (standard "").maxIterations ∧ found.2 < (standard "").digestEvents) ∧
    ¬ Readable segments ((standard "").build (path :: others) [] [])

instance (path : String) (others : List String) (segments : List Segment) :
    Decidable (MissesPosition path others segments) :=
  inferInstanceAs (Decidable (_ ∧ _))

/-- Positions are not read in the payload of events, right behind another position, and where digest
steps have an object. -/
theorem build_misses_positions :
    MissesPosition "steps.d.events[0].payload.items[1].name" []
        [.key "steps", .key "d", .key "events", .index 0, .key "payload", .key "items", .index 1,
          .key "name"] ∧
      MissesPosition "payload.matrix[0][1]" []
        [.key "payload", .key "matrix", .index 0, .index 1] ∧
      MissesPosition "steps[0].name" ["steps.d.events"]
        [.key "steps", .index 0, .key "name"] := by
  decide +kernel

end Builder

end MessageTemplate.Example
