import MessageTemplate.Proofs.Example.Collections

/-! # Example data holds what is asked for, and nothing else

For paths whose names can be written as they are, the names that can be followed into example data
are those of the paths that it is made for, of the declared collections, and of the payload of the
events that are asked for. The writes for events, collections and values only add to each other,
and a path that is left out because another one leads on from it is a part of that one. -/

namespace MessageTemplate.Example

open Json

namespace Builder

variable (builder : Builder)

/-- The names that example data is asked for: those of the paths that have a namespace or need
none, of the declared collections, and of the payload of events. -/
def requestedKeys (paths : List String) (arrays : List DeclaredArray) (flags : List String) :
    List (List String) :=
  let named := (paths ++ flags).filter fun path => builder.isNamespaced (Path.normalize path)
  let events := named.filter fun path => StepPath.isEvents (Path.normalize path)
  named.filterMap Path.keys? ++ arrays.filterMap (fun array => Path.keys? array.path) ++
    (events.filterMap Path.keys?).map (· ++ ["payload"])

variable {builder} {paths flags names keys : List String} {arrays : List DeclaredArray}

theorem mem_requestedKeys :
    keys ∈ builder.requestedKeys paths arrays flags ↔
      (∃ path ∈ paths ++ flags, builder.isNamespaced (Path.normalize path) ∧
        Path.keys? path = some keys) ∨
      (∃ array ∈ arrays, Path.keys? array.path = some keys) ∨
      ∃ path ∈ paths ++ flags, builder.isNamespaced (Path.normalize path) ∧
        StepPath.isEvents (Path.normalize path) ∧
        ∃ events, Path.keys? path = some events ∧ events ++ ["payload"] = keys := by
  simp only [requestedKeys, List.mem_append, List.mem_filterMap, List.mem_filter, List.mem_map,
    or_assoc]
  grind

theorem keys?_stripIndices_of_isClean {path : String} (clean : Path.isClean path) :
    Path.keys? (Path.stripIndices path) = Path.keys? path := by
  obtain ⟨segments, read, -, tidy⟩ := Path.exists_clean_of_isClean clean
  exact Path.keys?_stripIndices read tidy

theorem mem_requestedKeys_of_path {asked : String} {segments : List Segment}
    (given : asked ∈ paths ++ flags) (read : Path.split? asked = some segments)
    (named : builder.isNamespaced (Path.join segments)) :
    segments.filterMap Segment.key? ∈ builder.requestedKeys paths arrays flags := by
  rw [← Path.normalize_of_split? read] at named
  exact mem_requestedKeys.mpr (.inl ⟨asked, given, named, Path.keys?_of_split? read⟩)

theorem mem_requestedKeys_of_events {asked : String} {segments : List Segment}
    (given : asked ∈ paths ++ flags) (read : Path.split? asked = some segments)
    (named : builder.isNamespaced (Path.join segments))
    (events : StepPath.isEvents (Path.join segments)) :
    segments.filterMap Segment.key? ++ ["payload"] ∈
      builder.requestedKeys paths arrays flags := by
  rw [← Path.normalize_of_split? read] at named events
  exact mem_requestedKeys.mpr
    (.inr (.inr ⟨asked, given, named, events, _, Path.keys?_of_split? read, rfl⟩))

/-- A path that example data is made for is the usual form of one that it is asked for. -/
theorem exists_asked_of_mem_candidates {path : String}
    (clean : ∀ path ∈ paths, Path.isClean path) (member : path ∈ builder.candidates paths) :
    ∃ asked ∈ paths, ∃ segments, Path.split? asked = some segments ∧
      (∀ segment ∈ segments, segment.isClean) ∧ Path.Faithful segments ∧
      Path.join segments = path ∧ builder.isNamespaced (Path.join segments) := by
  obtain ⟨⟨asked, given, usual⟩, -, named⟩ := mem_candidates.mp member
  obtain ⟨segments, read, all, faithful⟩ := Path.exists_faithful_of_isClean (clean asked given)
  rw [Path.normalize_of_split? read] at usual
  subst usual
  exact ⟨asked, given, segments, read, all, faithful, rfl, named⟩

theorem isClean_of_mem_candidates {path : String} (clean : ∀ path ∈ paths, Path.isClean path)
    (member : path ∈ builder.candidates paths) : Path.isClean path := by
  obtain ⟨-, -, segments, -, all, faithful, rfl, -⟩ := exists_asked_of_mem_candidates clean member
  exact Path.isClean_of_split? (Path.split?_join faithful.toTidy) all

theorem forall_isClean_scalarPaths (clean : ∀ path ∈ paths, Path.isClean path) :
    ∀ path ∈ builder.scalarPaths paths, Path.isClean path :=
  fun _ member => isClean_of_mem_candidates clean (List.mem_filter.mp member).1

section Clean

variable (clean : ∀ path ∈ paths ++ flags, Path.isClean path)

include clean

/-- What can be read from the events of a step has been asked for. -/
theorem requested_of_mem_digestWrites {write : Write} {more : List String}
    (member : write ∈ builder.digestWrites arrays (builder.digestPaths (paths ++ flags)))
    (inside : SomeBranch more write.2) :
    ∃ keys ∈ builder.requestedKeys paths arrays flags, write.1 ++ more <+: keys := by
  obtain ⟨events, present, keys, read, rfl⟩ := mem_writesAt.mp member
  obtain ⟨path, group, rfl⟩ := List.mem_map.mp (mem_distinct.mp present)
  obtain ⟨candidate, digest⟩ := List.mem_filter.mp group
  obtain ⟨asked, given, segments, steps, -, faithful, rfl, named⟩ :=
    exists_asked_of_mem_candidates clean candidate
  obtain ⟨name, groupKeys, shape⟩ := keys_of_isDigest faithful digest
  cases read.symm.trans groupKeys
  rcases someBranch_exampleEvents inside with start | ⟨other, otherGroup, same, rest, found, start⟩
  · have extended := (List.prefix_append_right_inj ["steps", name, "events"]).mpr start
    rcases shape with ⟨isEvents, none⟩ | ⟨rest, -, whole⟩
    · refine ⟨_, mem_requestedKeys_of_events given steps named isEvents, ?_⟩
      rw [eventsOf_eq_self none, Path.keys?_of_split? (Path.split?_join faithful.toTidy),
        Option.some.injEq] at groupKeys
      rwa [groupKeys]
    · refine ⟨_, mem_requestedKeys_of_path given steps named, ?_⟩
      rw [whole]
      refine extended.trans ((List.prefix_append_right_inj _).mpr ?_)
      exact List.prefix_append ["payload"] rest
  · -- another path into the payload of the same events
    obtain ⟨otherCandidate, otherDigest⟩ := List.mem_filter.mp otherGroup
    obtain ⟨otherAsked, otherGiven, others, otherSteps, -, otherFaithful, rfl, otherNamed⟩ :=
      exists_asked_of_mem_candidates clean otherCandidate
    obtain ⟨otherName, otherKeys, ⟨-, none⟩ | ⟨more', readMore, whole⟩⟩ :=
      keys_of_isDigest otherFaithful otherDigest
    · rw [payloadPath_eq_empty none, keys?_empty] at found
      cases found
    · rw [same] at otherKeys
      cases otherKeys.symm.trans groupKeys
      cases found.symm.trans readMore
      refine ⟨_, mem_requestedKeys_of_path otherGiven otherSteps otherNamed, ?_⟩
      rw [whole]
      exact (List.prefix_append_right_inj _).mpr start

/-- The names of a path that example data is made for have been asked for. -/
theorem requested_of_mem_scalarPaths {path : String}
    (member : path ∈ builder.scalarPaths (paths ++ flags)) :
    Path.isClean path ∧ ∀ keys, Path.keys? path = some keys →
      keys ∈ builder.requestedKeys paths arrays flags := by
  obtain ⟨asked, given, segments, read, all, faithful, rfl, named⟩ :=
    exists_asked_of_mem_candidates clean (List.mem_filter.mp member).1
  have back := Path.split?_join faithful.toTidy
  refine ⟨Path.isClean_of_split? back all, ?_⟩
  intro keys found
  rw [Path.keys?_of_split? back] at found
  cases found
  exact mem_requestedKeys_of_path given read named

/-- The names of a collection have been asked for. -/
theorem requested_of_mem_collections {array : DeclaredArray}
    (plain : ∀ array ∈ arrays, Path.isClean array.path)
    (member : array ∈ builder.collections arrays (builder.scalarPaths (paths ++ flags)))
    (read : Path.keys? array.path = some names) :
    ∃ keys ∈ builder.requestedKeys paths arrays flags, names <+: keys := by
  rcases mem_collections.mp member with declared | implied
  · obtain ⟨given, present, rfl⟩ := List.mem_map.mp declared
    rw [keys?_stripIndices_of_isClean (plain given present)] at read
    exact ⟨names, mem_requestedKeys.mpr (.inr (.inl ⟨given, present, read⟩)), List.prefix_rfl⟩
  · have requested := fun path =>
      @requested_of_mem_scalarPaths builder paths flags arrays clean path
    obtain ⟨others, full, named, written, path, scalar, keys, whole, start⟩ :=
      exists_names_of_mem_implied (fun path scalar => (requested path scalar).1) implied
    rw [written, Path.keys?_ofKeys full named, Option.some.injEq] at read
    subst read
    exact ⟨keys, (requested path scalar).2 keys whole, start⟩

theorem requested_of_mem_leafWrites {write : Write}
    (member : write ∈ builder.leafWrites flags (builder.scalarPaths (paths ++ flags))) :
    write.1 ∈ builder.requestedKeys paths arrays flags := by
  obtain ⟨path, leaf, keys, read, rfl⟩ := mem_writesAt.mp member
  obtain ⟨⟨asked, scalar, rfl⟩, -⟩ := mem_leaves.mp leaf
  obtain ⟨plain, requested⟩ :=
    @requested_of_mem_scalarPaths builder paths flags arrays clean asked scalar
  rw [id, keys?_stripIndices_of_isClean plain] at read
  exact requested keys read

/-- What can be read from example data has been asked for. -/
theorem requested_of_someBranch_build (plain : ∀ array ∈ arrays, Path.isClean array.path)
    (some : names ≠ []) (reached : SomeBranch names (builder.build paths arrays flags)) :
    ∃ keys ∈ builder.requestedKeys paths arrays flags, names <+: keys := by
  rw [build_eq_placeAll] at reached
  rcases someBranch_of_placeAll reached with empty | ⟨write, member, parts⟩
  · exact absurd (someBranch_empty empty) some
  · have start : ∃ more, names <+: write.1 ++ more ∧ SomeBranch more write.2 := by
      rcases parts with inKeys | ⟨more, rfl, inside⟩
      · exact ⟨[], by rwa [List.append_nil], .here⟩
      · exact ⟨more, List.prefix_rfl, inside⟩
    obtain ⟨more, start, inside⟩ := start
    rcases List.mem_append.mp member with digest | later
    · obtain ⟨keys, requested, further⟩ := requested_of_mem_digestWrites clean digest inside
      exact ⟨keys, requested, start.trans further⟩
    · rcases List.mem_append.mp later with collection | leaf
      · obtain ⟨array, given, keys, read, rfl⟩ := mem_writesAt.mp collection
        rw [bare_repeated array.iterations more inside, List.append_nil] at start
        obtain ⟨keys', requested, further⟩ := requested_of_mem_collections clean plain given read
        exact ⟨keys', requested, start.trans further⟩
      · obtain ⟨noItems, noMembers⟩ := plain_of_mem_leafWrites leaf
        rw [bare_of_scalar noItems noMembers more inside, List.append_nil] at start
        exact ⟨write.1, requested_of_mem_leafWrites clean leaf, start⟩

/-- What example data is asked for can be read from it in every branch. -/
theorem everyBranch_of_mem_requestedKeys (plain : ∀ array ∈ arrays, Path.isClean array.path)
    (requested : keys ∈ builder.requestedKeys paths arrays flags) :
    EveryBranch (fun _ => True) keys (builder.build paths arrays flags) := by
  rcases mem_requestedKeys.mp requested with
    ⟨path, given, named, read⟩ | ⟨array, given, read⟩ |
    ⟨path, given, named, isEvents, keys, read, rfl⟩
  · obtain ⟨segments, steps, -, faithful⟩ := Path.exists_faithful_of_isClean (clean path given)
    rw [Path.keys?_of_split? steps] at read
    cases read
    apply everyBranch_build given steps faithful named
    intro blocked
    obtain ⟨other, scalar, blocks⟩ := List.any_eq_true.mp (Bool.and_eq_true_iff.mp blocked).2
    obtain ⟨otherClean, -⟩ :=
      @requested_of_mem_scalarPaths builder paths flags arrays clean other scalar
    obtain ⟨others, found, -, tidy⟩ := Path.exists_clean_of_isClean otherClean
    rw [Path.blocks, Path.stripIndices_of_split? found, Path.split?_join tidy.propertySegments]
      at blocks
    simp at blocks
  · have collection : (⟨Path.stripIndices array.path,
        min array.iterations builder.maxIterations⟩ : DeclaredArray) ∈
          builder.collections arrays (builder.scalarPaths (paths ++ flags)) :=
      mem_collections.mpr (.inl (List.mem_map_of_mem given))
    rw [← keys?_stripIndices_of_isClean (plain array given)] at read
    rw [build_eq_placeAll, placeAll_append, placeAll_append]
    exact everyBranch_placeAll_kept (everyBranch_writesAt collection read)
  · obtain ⟨segments, steps, -, faithful⟩ := Path.exists_faithful_of_isClean (clean path given)
    rw [Path.normalize_of_split? steps] at named isEvents
    rw [Path.keys?_of_split? steps, Option.some.injEq] at read
    rw [build_eq_placeAll, placeAll_append, placeAll_append]
    refine everyBranch_placeAll_kept (everyBranch_placeAll_kept ?_)
    have digest : isDigest (Path.join segments) := by simp [isDigest, isEvents]
    have member : Path.join segments ∈ builder.digestPaths (paths ++ flags) :=
      List.mem_filter.mpr ⟨join_mem_candidates given steps faithful.toTidy named, digest⟩
    have all : ∀ other ∈ builder.digestPaths (paths ++ flags), isDigest other :=
      fun other present => (List.mem_filter.mp present).2
    rw [← read]
    refine everyBranch_digestWrites all member ?_ (.here trivial)
    rw [eventsOf_eq_self (eventPayload?_of_isEvents faithful isEvents),
      Path.keys?_of_split? (Path.split?_join faithful.toTidy)]

end Clean

/-- Example data holds what is asked for, and nothing else. Of names that are no empty chain, those
that can be followed in all branches, and those that can be followed in some branch, are the ones
that start a requested chain. -/
theorem build_reads_requested (clean : ∀ path ∈ paths ++ flags, Path.isClean path)
    (declared : ∀ array ∈ arrays, Path.isClean array.path ∧ 1 ≤ array.iterations)
    (limit : 1 ≤ builder.maxIterations) (events : 1 ≤ builder.digestEvents) (some : names ≠ []) :
    (EveryBranch (fun _ => True) names (builder.build paths arrays flags) ↔
      ∃ keys ∈ builder.requestedKeys paths arrays flags, names <+: keys) ∧
    (SomeBranch names (builder.build paths arrays flags) ↔
      ∃ keys ∈ builder.requestedKeys paths arrays flags, names <+: keys) := by
  have plain := fun array given => (declared array given).1
  have full : Full (builder.build paths arrays flags) :=
    full_build (fun array given => (declared array given).2) limit events
  have every : (∃ keys ∈ builder.requestedKeys paths arrays flags, names <+: keys) →
      EveryBranch (fun _ => True) names (builder.build paths arrays flags) := by
    rintro ⟨keys, requested, start⟩
    exact (everyBranch_of_mem_requestedKeys clean plain requested).of_isPrefix start
  have none : SomeBranch names (builder.build paths arrays flags) →
      ∃ keys ∈ builder.requestedKeys paths arrays flags, names <+: keys :=
    requested_of_someBranch_build clean plain some
  refine ⟨⟨fun reached => none (reached.someBranch full), every⟩, none, ?_⟩
  intro requested
  exact (every requested).someBranch full

/-- The elements of a collection have the name that is asked for, and the payload itself does not. -/
theorem build_reads_names_of_items :
    EveryBranch (fun _ => True) ["payload", "items", "name"]
        ((standard "").build ["payload.items[1].name", "steps.digest.events"]
          [⟨"payload.items", 2⟩] ["payload.admin"]) ∧
      ¬ SomeBranch ["payload", "name"]
        ((standard "").build ["payload.items[1].name", "steps.digest.events"]
          [⟨"payload.items", 2⟩] ["payload.admin"]) := by
  have clean : ∀ path ∈ ["payload.items[1].name", "steps.digest.events"] ++ ["payload.admin"],
      Path.isClean path := by decide +kernel
  have declared : ∀ array ∈ [(⟨"payload.items", 2⟩ : DeclaredArray)],
      Path.isClean array.path ∧ 1 ≤ array.iterations := by decide +kernel
  constructor
  · refine (build_reads_requested clean declared (by decide) (by decide) (by decide)).1.mpr ?_
    decide +kernel
  · rw [(build_reads_requested clean declared (by decide) (by decide) (by decide)).2]
    decide +kernel

end Builder

end MessageTemplate.Example
