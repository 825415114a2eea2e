import MessageTemplate.Example.Layout
import MessageTemplate.Proofs.Example.Coverage
import MessageTemplate.Proofs.Path.Keys

/-! # Collections in example data

A collection is declared, or a position in a path implies it; then the names of its path lead to
that position. As long as no collection is declared with no elements, and the limits leave at least
one, no array in example data is empty. -/

namespace MessageTemplate.Example

open Json

/-! ## Implied collections -/

/-- A position stands behind some of the names of its path. -/
theorem mem_positionsFrom {keys names : List String} {segments : List Segment} {position : Nat}
    (member : (names, position) ∈ Path.positionsFrom keys segments) :
    keys <+: names ∧ names <+: keys ++ segments.filterMap Segment.key? := by
  induction segments generalizing keys with
  | nil => cases member
  | cons segment rest ih =>
    cases segment with
    | key name =>
      obtain ⟨start, stop⟩ := ih member
      refine ⟨(List.prefix_append _ _).trans start, ?_⟩
      simpa [Segment.key?] using stop
    | index other =>
      rcases List.mem_cons.mp member with here | later
      · cases here
        exact ⟨List.prefix_rfl, List.prefix_append _ _⟩
      · exact ih later

theorem clean_of_mem_positionsFrom {path : String} {names : List String} {segments : List Segment}
    {position : Nat} (clean : Path.isClean path) (read : Path.split? path = some segments)
    (member : (names, position) ∈ Path.positionsFrom [] segments) :
    names ≠ [] ∧ ∀ name ∈ names, (Segment.key name).isClean := by
  obtain ⟨name, rest, rfl, -⟩ := Path.exists_key_of_split? read
  have named := (Path.clean_of_keys? clean (Path.keys?_of_split? read)).2
  obtain ⟨start, stop⟩ := @mem_positionsFrom [name] names rest position member
  refine ⟨fun empty => ?_, fun other inside => named other (stop.subset inside)⟩
  rw [empty] at start
  exact List.cons_ne_nil _ _ (List.prefix_nil.mp start)

/-- Each position in a path implies a collection with elements up to it, at the names before it. -/
theorem impliedBy_eq_map (keys : List String) (segments : List Segment) :
    impliedBy keys segments = (Path.positionsFrom keys segments).map fun (names, position) =>
      ⟨".".intercalate names, position + 1⟩ := by
  induction segments generalizing keys with
  | nil => rfl
  | cons segment rest ih =>
    cases segment with
    | key name => exact ih _
    | index position => exact congrArg _ (ih keys)

theorem mem_impliedBy {keys : List String} {segments : List Segment} {array : DeclaredArray} :
    array ∈ impliedBy keys segments ↔ ∃ names position,
      (names, position) ∈ Path.positionsFrom keys segments ∧
        ⟨".".intercalate names, position + 1⟩ = array := by
  rw [impliedBy_eq_map, List.mem_map, Prod.exists]

/-- Of two collections at one path, widening keeps the one with more elements. -/
theorem mem_of_mem_widen {arrays : List DeclaredArray} {array other : DeclaredArray}
    (member : other ∈ widen arrays array) : other ∈ arrays ∨ other = array := by
  rw [widen] at member
  split at member
  · obtain ⟨old, present, rfl⟩ := List.mem_map.mp member
    split
    · next same =>
      rcases max_choice old.iterations array.iterations with kept | more
      · rw [kept]
        exact .inl present
      · rw [more, same]
        exact .inr rfl
    · exact .inl present
  · exact (List.mem_append.mp member).imp_right List.mem_singleton.mp

theorem mem_of_mem_foldl_widen {arrays found : List DeclaredArray} {array : DeclaredArray}
    (member : array ∈ found.foldl widen arrays) : array ∈ arrays ∨ array ∈ found := by
  induction found generalizing arrays with
  | nil => exact .inl member
  | cons first found ih =>
    rcases ih member with before | later
    · refine (mem_of_mem_widen before).imp_right ?_
      rintro rfl
      exact List.mem_cons_self
    · exact .inr (List.mem_cons_of_mem _ later)

namespace Builder

variable {builder : Builder} {arrays : List DeclaredArray}

/-- What holds of the collections that positions imply, each with as many elements as the limit
leaves, holds of all implied collections. -/
theorem forall_implied {declared : List DeclaredArray} {paths : List String}
    (good : DeclaredArray → Prop)
    (found : ∀ path ∈ paths, ∀ array ∈ impliedBy [] ((Path.split? path).getD []),
      good { array with iterations := min array.iterations builder.maxIterations }) :
    ∀ array ∈ builder.implied declared paths, good array := by
  intro other member
  have among := (mem_of_mem_foldl_widen member).resolve_left List.not_mem_nil
  obtain ⟨array, undeclared, rfl⟩ := List.mem_map.mp among
  obtain ⟨path, given, inside⟩ := List.mem_flatMap.mp (List.mem_filter.mp undeclared).1
  exact found path given array inside

theorem mem_collections {paths : List String} {array : DeclaredArray} :
    array ∈ builder.collections arrays paths ↔
      array ∈ builder.declared arrays ∨
        array ∈ builder.implied (builder.declared arrays) paths := by
  rw [collections, mem_sortByDepth, List.mem_append]

/-- An implied collection has the names of some path as far as they lead to a position. -/
theorem exists_names_of_mem_implied {declared : List DeclaredArray} {paths : List String}
    {array : DeclaredArray} (clean : ∀ path ∈ paths, Path.isClean path)
    (member : array ∈ builder.implied declared paths) :
    ∃ names, names ≠ [] ∧ (∀ name ∈ names, (Segment.key name).isClean) ∧
      array.path = Path.ofKeys names ∧
        ∃ path ∈ paths, ∃ keys, Path.keys? path = some keys ∧ names <+: keys := by
  refine forall_implied (fun array => ∃ names, names ≠ [] ∧
    (∀ name ∈ names, (Segment.key name).isClean) ∧ array.path = Path.ofKeys names ∧
      ∃ path ∈ paths, ∃ keys, Path.keys? path = some keys ∧ names <+: keys)
    (fun path given array inside => ?_) array member
  obtain ⟨segments, read, -⟩ := Path.exists_clean_of_isClean (clean path given)
  rw [read, Option.getD_some] at inside
  obtain ⟨names, position, member, rfl⟩ := mem_impliedBy.mp inside
  obtain ⟨full, named⟩ := clean_of_mem_positionsFrom (clean path given) read member
  exact ⟨names, full, named, Path.intercalate_eq_ofKeys full named, path, given, _,
    Path.keys?_of_split? read, (mem_positionsFrom member).2⟩

/-- The path of a collection is told by its names. -/
theorem exists_names_of_mem_collections {paths : List String} {array : DeclaredArray}
    (plain : ∀ array ∈ arrays, Path.isClean array.path) (clean : ∀ path ∈ paths, Path.isClean path)
    (member : array ∈ builder.collections arrays paths) :
    ∃ names, names ≠ [] ∧ (∀ name ∈ names, (Segment.key name).isClean) ∧
      array.path = Path.ofKeys names := by
  rcases mem_collections.mp member with declared | implied
  · obtain ⟨given, present, rfl⟩ := List.mem_map.mp declared
    obtain ⟨segments, steps, -⟩ := Path.exists_clean_of_isClean (plain given present)
    have read := Path.keys?_of_split? steps
    obtain ⟨full, named⟩ := Path.clean_of_keys? (plain given present) read
    exact ⟨_, full, named, Path.stripIndices_of_keys? read⟩
  · obtain ⟨names, full, named, written, -⟩ := exists_names_of_mem_implied clean implied
    exact ⟨names, full, named, written⟩

/-! ## No array is empty -/

section Full

variable (some : ∀ array ∈ arrays, 1 ≤ array.iterations) (limit : 1 ≤ builder.maxIterations)

include some limit

theorem one_le_of_mem_collections {paths : List String} {array : DeclaredArray}
    (member : array ∈ builder.collections arrays paths) : 1 ≤ array.iterations := by
  rcases mem_collections.mp member with declared | implied
  · obtain ⟨given, present, rfl⟩ := List.mem_map.mp declared
    exact le_min (some given present) limit
  · refine forall_implied (fun array => 1 ≤ array.iterations) (fun path _ array inside => ?_)
      array implied
    obtain ⟨names, position, -, rfl⟩ := mem_impliedBy.mp inside
    exact le_min (Nat.le_add_left 1 position) limit

theorem one_le_eventCount (events : 1 ≤ builder.digestEvents) (path : String) :
    1 ≤ builder.eventCount arrays path := by
  rw [eventCount]
  refine le_min ?_ limit
  cases found : arrays.find? fun array => Path.stripIndices array.path = path with
  | none => exact events
  | some array => exact some array (List.mem_of_find?_eq_some found)

end Full

end Builder

theorem full_repeated {count : Nat} {element : Json} (some : 1 ≤ count) (full : Full element) :
    Full (repeated count element) := by
  refine .array (fun empty => ?_) fun item member => ?_
  · rw [List.replicate_eq_nil_iff] at empty
    omega
  · rwa [List.eq_of_mem_replicate member]

theorem full_empty : Full (.object []) := .object fun _ _ missing => nomatch missing

theorem full_payloadOfEvents (digestPaths : List String) (events : String) :
    Full (payloadOfEvents digestPaths events) := by
  rw [payloadOfEvents_eq]
  apply full_placeAll full_empty
  intro write member
  obtain ⟨path, -, keys, -, rfl⟩ := mem_writesAt.mp member
  exact .scalar rfl rfl

namespace Builder

variable {builder : Builder} {arrays : List DeclaredArray}

/-- The values of paths hold no other values. -/
theorem plain_of_mem_leafWrites {flags paths : List String} {write : Write}
    (member : write ∈ builder.leafWrites flags paths) :
    write.2.items? = none ∧ write.2.members? = none := by
  obtain ⟨path, -, keys, -, rfl⟩ := mem_writesAt.mp member
  dsimp only
  split
  · exact ⟨rfl, rfl⟩
  · exact builder.plain_standIn path keys

/-- No array in example data is empty. -/
theorem full_build {paths flags : List String} (some : ∀ array ∈ arrays, 1 ≤ array.iterations)
    (limit : 1 ≤ builder.maxIterations) (events : 1 ≤ builder.digestEvents) :
    Full (builder.build paths arrays flags) := by
  rw [build_eq_placeAll]
  apply full_placeAll full_empty
  intro write member
  rcases List.mem_append.mp member with digest | later
  · obtain ⟨path, -, keys, -, rfl⟩ := mem_writesAt.mp digest
    refine full_repeated (one_le_eventCount some limit events path) ?_
    apply Full.object
    intro name value found
    simp only [Keyed.get?, Option.ite_none_right_eq_some, Option.some.injEq] at found
    obtain ⟨-, rfl⟩ := found
    exact full_payloadOfEvents _ _
  · rcases List.mem_append.mp later with collection | leaf
    · obtain ⟨array, given, keys, -, rfl⟩ := mem_writesAt.mp collection
      exact full_repeated (one_le_of_mem_collections some limit given) full_empty
    · obtain ⟨noItems, noMembers⟩ := plain_of_mem_leafWrites leaf
      exact .scalar noItems noMembers

end Builder

end MessageTemplate.Example
