import MessageTemplate.Proofs.Example.Digest

/-! # Which values example data ends in

Values are written twice: into the payload of events, and at the end of the other paths. Where no
requested path leads on and no array or object is asked for, the end of a path is the value of one of
these writes: that of another path, if one has the same names, and else that of the payload. Flags
are only seen in the first case. -/

namespace MessageTemplate.Example.Builder

open Json

variable {builder : Builder} {arrays : List DeclaredArray} {paths flags keys : List String}

/-! ## Stand-ins -/

/-- What stands for the value of a path of properties is told by their names. -/
theorem standIn_ofKeys (full : keys ≠ []) (named : ∀ key ∈ keys, (Segment.key key).isClean) :
    builder.standIn (Path.ofKeys keys) keys = builder.valueAt keys := by
  have reads : ∀ field, (Segment.key field).isClean →
      (StepPath.field? (Path.ofKeys keys) = some field ↔ ∃ step, keys = ["steps", step, field]) :=
    fun field clean => Path.field?_ofKeys full named clean
  by_cases shape : ∃ step field, keys = ["steps", step, field]
  · obtain ⟨step, field, rfl⟩ := shape
    have found := (reads field (named field (by simp))).mpr ⟨step, rfl⟩
    simp [standIn, StepPath.isStatus, StepPath.isDate, found, valueAt]
  · have apart : ∀ step field, keys ≠ ["steps", step, field] :=
      fun step field same => shape ⟨step, field, same⟩
    have missing : ∀ field, (Segment.key field).isClean →
        StepPath.field? (Path.ofKeys keys) ≠ some field := fun field clean found =>
      shape (((reads field clean).mp found).imp fun _ same => ⟨field, same⟩)
    have status : StepPath.isStatus (Path.ofKeys keys) = false := by
      simp [StepPath.isStatus, missing "seen" (by decide), missing "read" (by decide)]
    have date : StepPath.isDate (Path.ofKeys keys) = false := by
      simp [StepPath.isDate, missing "lastSeenDate" (by decide), missing "lastReadDate" (by decide)]
    rw [valueAt.eq_2 builder keys apart, standIn, status, date]
    rfl

/-- The value at the end of names that a path is read from which is not into events. -/
def leafValue (builder : Builder) (flags keys : List String) : Json :=
  if flags.any fun flag => Path.keys? flag = some keys then .bool true else builder.valueAt keys

theorem isContainer_valueAt (keys : List String) : isContainer (builder.valueAt keys) = false := by
  unfold valueAt
  split
  · split_ifs <;> rfl
  · rfl

theorem isContainer_leafValue (flags keys : List String) :
    isContainer (builder.leafValue flags keys) = false := by
  unfold leafValue
  split
  · rfl
  · exact isContainer_valueAt keys

/-! ## Writes that lead to some names -/

/-- Names behind which nothing else is asked for: no other path leads on from them, and no collection,
no events of digest steps and no payload of events stand there or further on. -/
structure IsEnd (builder : Builder) (paths : List String) (arrays : List DeclaredArray)
    (flags keys : List String) : Prop where
  last : ∀ path ∈ paths ++ flags, ∀ more ∈ Path.keys? path, keys <+: more → keys = more
  declared : ∀ array ∈ builder.declared arrays, ∀ more ∈ Path.keys? array.path, ¬ keys <+: more
  implied : ∀ array ∈
      builder.implied (builder.declared arrays) (builder.scalarPaths (paths ++ flags)),
    ∀ more ∈ Path.keys? array.path, ¬ keys <+: more
  digest : ∀ path ∈ builder.digestPaths (paths ++ flags), ∀ events ∈ Path.keys? (eventsOf path),
    ¬ keys <+: events ++ ["payload"]

theorem IsEnd.collections {array : DeclaredArray} {more : List String}
    (ends : IsEnd builder paths arrays flags keys)
    (member : array ∈ builder.collections arrays (builder.scalarPaths (paths ++ flags)))
    (read : Path.keys? array.path = some more) : ¬ keys <+: more := by
  rcases mem_collections.mp member with declared | implied
  · exact ends.declared array declared more read
  · exact ends.implied array implied more read

section Clean

variable (clean : ∀ path ∈ paths ++ flags, Path.isClean path)

include clean

/-- Example data is made for paths with names that it is asked for. -/
theorem IsEnd.of_mem_candidates {path : String} {more : List String}
    (ends : IsEnd builder paths arrays flags keys)
    (member : path ∈ builder.candidates (paths ++ flags)) (read : Path.keys? path = some more)
    (start : keys <+: more) : keys = more := by
  obtain ⟨⟨asked, given, rfl⟩, -⟩ := mem_candidates.mp member
  rw [Path.keys?_normalize (clean asked given)] at read
  exact ends.last asked given more read start

theorem IsEnd.not_isInDigest (ends : IsEnd builder paths arrays flags keys) :
    ¬ builder.isInDigest (paths ++ flags) keys := by
  intro inside
  obtain ⟨path, member, events, more, group, read, -, start | ⟨start, differs⟩⟩ :=
    (isInDigest_iff clean).mp inside
  · exact ends.digest path member events group start
  · exact differs (ends.of_mem_candidates clean (List.mem_filter.mp member).1 read start)

/-- No array and no object stands at the end before the values are written. -/
theorem IsEnd.vacant (ends : IsEnd builder paths arrays flags keys) (full : keys ≠ []) :
    EachBranch Vacant keys
      (placeAll (builder.collectionWrites arrays (builder.scalarPaths (paths ++ flags)))
        (placeAll (builder.digestWrites arrays (builder.digestPaths (paths ++ flags)))
          (.object []))) := by
  have apart : ∀ path ∈ builder.digestPaths (paths ++ flags),
      Path.keys? (eventsOf path) ≠ some keys := fun path member group =>
    ends.digest path member keys group (List.prefix_append _ _)
  have along : ∀ write ∈ builder.collectionWrites arrays (builder.scalarPaths (paths ++ flags)),
      ¬ keys <+: write.1 := by
    intro write written
    obtain ⟨array, member, more, read, rfl⟩ := mem_writesAt.mp written
    exact ends.collections member read
  refine vacant_placeAll full (fun write written start => ?_) (fun write written more whole => ?_)
    (vacant_digestWrites clean full apart (ends.not_isInDigest clean))
  · exact absurd start (along write written)
  · have differs : more ≠ [] := by
      rintro rfl
      rw [List.append_nil] at whole
      exact along write written (whole ▸ List.prefix_rfl)
    obtain ⟨array, -, -, -, rfl⟩ := mem_writesAt.mp written
    exact (bare_repeated array.iterations).eachBranch_vacant differs

/-! ## Values of paths -/

/-- Whether a flag has some names is told by its path. -/
theorem contains_stripIndices (full : keys ≠ []) (named : ∀ key ∈ keys, (Segment.key key).isClean) :
    (flags.map Path.stripIndices).contains (Path.ofKeys keys) =
      flags.any fun flag => Path.keys? flag = some keys := by
  rw [Bool.eq_iff_iff, List.contains_iff_mem, List.mem_map, List.any_eq_true]
  refine exists_congr fun flag => and_congr_right fun member => ?_
  have plain := clean flag (List.mem_append_right _ member)
  obtain ⟨segments, steps, -⟩ := Path.exists_clean_of_isClean plain
  have read := Path.keys?_of_split? steps
  obtain ⟨full', named'⟩ := Path.clean_of_keys? plain read
  rw [Path.stripIndices_of_keys? read, read, decide_eq_true_eq, Option.some.injEq]
  constructor
  · exact Path.ofKeys_injective full' named' full named
  · rintro rfl
    rfl

/-- What is written at a path of properties is told by their names. -/
theorem leafWrite_eq (full : keys ≠ []) (named : ∀ key ∈ keys, (Segment.key key).isClean) :
    (if (flags.map Path.stripIndices).contains (Path.ofKeys keys) then .bool true
      else builder.standIn (Path.ofKeys keys) keys) = builder.leafValue flags keys := by
  rw [contains_stripIndices clean full named, standIn_ofKeys full named, leafValue]

theorem exists_of_mem_leafWrites {write : Write}
    (written : write ∈ builder.leafWrites flags (builder.scalarPaths (paths ++ flags))) :
    ∃ path ∈ builder.scalarPaths (paths ++ flags), Path.keys? path = some write.1 ∧
      write.2 = builder.leafValue flags write.1 := by
  obtain ⟨leaf, present, keys, read, rfl⟩ := mem_writesAt.mp written
  obtain ⟨⟨path, member, rfl⟩, -⟩ := mem_leaves.mp present
  have plain := isClean_of_mem_candidates clean (List.mem_filter.mp member).1
  have read := (keys?_stripIndices_of_isClean plain).symm.trans read
  obtain ⟨full, named⟩ := Path.clean_of_keys? plain read
  refine ⟨path, member, read, ?_⟩
  rw [← leafWrite_eq clean full named, Path.stripIndices_of_keys? read]

/-- Where a path that is not into events ends, its value stands in the end. -/
theorem IsEnd.everyBranch_leaf {path : String} (ends : IsEnd builder paths arrays flags keys)
    (member : path ∈ builder.scalarPaths (paths ++ flags)) (read : Path.keys? path = some keys) :
    EveryBranch (fun value => value = builder.leafValue flags keys) keys
      (builder.build paths arrays flags) := by
  have cleanAll := @forall_isClean_scalarPaths builder _ clean
  obtain ⟨full, named⟩ := Path.clean_of_keys? (cleanAll path member) read
  have leaf : Path.ofKeys keys ∈ leaves (builder.scalarPaths (paths ++ flags)) := by
    refine mem_leaves.mpr ⟨⟨path, member, Path.stripIndices_of_keys? read⟩, ?_⟩
    intro other present leads
    obtain ⟨segments, steps, -⟩ := Path.exists_clean_of_isClean (cleanAll other present)
    have whole := Path.keys?_of_split? steps
    obtain ⟨full', named'⟩ := Path.clean_of_keys? (cleanAll other present) whole
    rw [Path.stripIndices_of_keys? whole] at leads
    obtain ⟨start, differs⟩ := Path.isPrefix_of_isStrictPrefix full named full' named' leads
    exact differs (ends.of_mem_candidates clean (List.mem_filter.mp present).1 whole start)
  have write : (keys, builder.leafValue flags keys) ∈
      builder.leafWrites flags (builder.scalarPaths (paths ++ flags)) := by
    refine mem_writesAt.mpr ⟨_, leaf, keys, Path.keys?_ofKeys full named, ?_⟩
    rw [← leafWrite_eq clean full named]
  have alike : ∀ write ∈ builder.leafWrites flags (builder.scalarPaths (paths ++ flags)),
      keys <+: write.1 → write = (keys, builder.leafValue flags keys) := by
    intro write written start
    obtain ⟨other, present, whole, value⟩ := exists_of_mem_leafWrites clean written
    have same := ends.of_mem_candidates clean (List.mem_filter.mp present).1 whole start
    rw [← same] at value
    exact Prod.ext same.symm value
  rw [build_eq_placeAll, placeAll_append, placeAll_append]
  refine everyBranch_placeAll_scalar full (isContainer_leafValue flags keys) write alike ?_
    (ends.vacant clean full)
  intro other written more _
  obtain ⟨-, -, -, value⟩ := exists_of_mem_leafWrites clean written
  exact eachBranch_vacant_of_scalar (value ▸ isContainer_leafValue flags other.1) more

/-- What is read from the payload of events is its last name, unless something else is read behind
it. -/
theorem everyBranch_payloadOfEvents {path : String} {events more : List String}
    (ends : IsEnd builder paths arrays flags (events ++ "payload" :: more))
    (member : path ∈ builder.digestPaths (paths ++ flags))
    (group : Path.keys? (eventsOf path) = some events)
    (inside : Path.keys? (payloadPath path) = some more) (full : more ≠ []) :
    EveryBranch (fun value => value = .string (more.getLast?.getD "")) more
      (payloadOfEvents (builder.digestPaths (paths ++ flags)) (eventsOf path)) := by
  rw [payloadOfEvents_eq]
  have write : (more, Json.string (more.getLast?.getD "")) ∈
      payloadWrites (builder.digestPaths (paths ++ flags)) (eventsOf path) :=
    mem_writesAt.mpr ⟨path, List.mem_filter.mpr ⟨member, decide_eq_true rfl⟩, more, inside, rfl⟩
  refine everyBranch_placeAll_scalar full rfl write ?_ ?_ (eachBranch_empty full vacant_none)
  · intro other written start
    obtain ⟨path', grouped, others, found, rfl⟩ := mem_writesAt.mp written
    obtain ⟨member', same⟩ := List.mem_filter.mp grouped
    rw [← of_decide_eq_true same] at group
    obtain ⟨name, group', ⟨-, none⟩ | ⟨others', found', whole⟩⟩ :=
      keys_of_mem_digestPaths clean member'
    · cases none.symm.trans found
    · obtain rfl := Option.some.inj (found'.symm.trans found)
      obtain rfl := Option.some.inj (group'.symm.trans group)
      have further := ends.of_mem_candidates clean (List.mem_filter.mp member').1 whole
        (by simpa using start)
      simp only [List.append_cancel_left_eq, List.cons.injEq, true_and] at further
      rw [further]
  · intro other written more' _
    obtain ⟨path', -, others, -, rfl⟩ := mem_writesAt.mp written
    exact eachBranch_vacant_of_scalar rfl more'

/-- Where only paths into events end, what stands for their value stands in the end. -/
theorem IsEnd.everyBranch_payload {path : String} (ends : IsEnd builder paths arrays flags keys)
    (member : path ∈ builder.digestPaths (paths ++ flags)) (read : Path.keys? path = some keys)
    (only : ∀ other ∈ builder.scalarPaths (paths ++ flags), Path.keys? other ≠ some keys) :
    EveryBranch (fun value => value = builder.valueAt keys) keys
      (builder.build paths arrays flags) := by
  obtain ⟨name, group, ⟨whole, -⟩ | ⟨more, inside, whole⟩⟩ := keys_of_mem_digestPaths clean member
  · obtain rfl := Option.some.inj (whole.symm.trans read)
    exact absurd (List.prefix_append _ _) (ends.digest path member _ group)
  · obtain rfl := Option.some.inj (whole.symm.trans read)
    have full : more ≠ [] := by
      rintro rfl
      exact ends.digest path member _ group List.prefix_rfl
    have value : builder.valueAt (["steps", name, "events"] ++ "payload" :: more) =
        .string (more.getLast?.getD "") := by
      obtain ⟨first, rest, rfl⟩ := List.exists_cons_of_ne_nil full
      simp [valueAt]
    have kept : ∀ write ∈ builder.collectionWrites arrays (builder.scalarPaths (paths ++ flags)) ++
        builder.leafWrites flags (builder.scalarPaths (paths ++ flags)),
        ¬ ["steps", name, "events"] ++ "payload" :: more <+: write.1 := by
      intro write written start
      rcases List.mem_append.mp written with collection | leaf
      · obtain ⟨array, given, keys, found, rfl⟩ := mem_writesAt.mp collection
        exact ends.collections given found start
      · obtain ⟨other, present, found, -⟩ := exists_of_mem_leafWrites clean leaf
        have same := ends.of_mem_candidates clean (List.mem_filter.mp present).1 found start
        exact only other present (same ▸ found)
    rw [build_eq_placeAll, placeAll_append, value]
    refine everyBranch_placeAll_of_keeps (List.cons_ne_nil _ _) ?_
      (everyBranch_digestWrites forall_isDigest member group
        (everyBranch_payloadOfEvents clean ends member group inside full))
    intro write written rest same
    exact absurd (same ▸ List.prefix_append _ rest) (kept write written)

/-! ## Values of flags -/

omit clean in
theorem mem_joinFrom_of_key {segments : List Segment} (some : segments.filterMap Segment.key? ≠ []) :
    '.' ∈ Path.joinFrom true segments := by
  induction segments with
  | nil => exact absurd rfl some
  | cons segment rest ih =>
    cases segment with
    | key name =>
      rw [Path.joinFrom_true_key]
      exact List.mem_cons_self
    | index position =>
      rw [Path.joinFrom_true_index]
      exact List.mem_cons_of_mem _ (List.mem_append_right _ (List.mem_cons_of_mem _ (ih some)))

/-- A path that some names are read from has a namespace, if there are two of them. -/
theorem mem_candidates_of_keys? {path : String} (asked : path ∈ paths ++ flags)
    (read : Path.keys? path = some keys) (long : 2 ≤ keys.length) :
    Path.normalize path ∈ builder.candidates (paths ++ flags) := by
  obtain ⟨segments, steps, -, tidy⟩ := Path.exists_clean_of_isClean (clean path asked)
  obtain ⟨name, rest, rfl, -⟩ := tidy.starts
  rw [Path.normalize_of_split? steps]
  refine join_mem_candidates asked steps tidy (Bool.or_eq_true_iff.mpr (.inl ?_))
  have whole := Path.keys?_of_split? steps
  obtain rfl := Option.some.inj (whole.symm.trans read)
  have more : rest.filterMap Segment.key? ≠ [] := by
    intro none
    simp [Segment.key?, none] at long
  rw [List.contains_iff_mem, Path.toList_join (tidy.all _ List.mem_cons_self)]
  exact List.mem_append_right _ (mem_joinFrom_of_key more)

/-- Where a path with a namespace ends in example data, and nothing else is asked for there, it has
the value true if it is seen as a flag, and else what stands for its value. -/
theorem build_reads_values {path : String} (asked : path ∈ paths ++ flags)
    (namespaced : builder.isNamespaced (Path.normalize path)) (read : Path.keys? path = some keys)
    (ends : IsEnd builder paths arrays flags keys) :
    EveryBranch (fun value => value =
        if isFlagged paths flags keys then .bool true else builder.valueAt keys) keys
      (builder.build paths arrays flags) := by
  obtain ⟨segments, steps, -, tidy⟩ := Path.exists_clean_of_isClean (clean path asked)
  have candidate : Path.normalize path ∈ builder.candidates (paths ++ flags) := by
    rw [Path.normalize_of_split? steps] at namespaced ⊢
    exact join_mem_candidates asked steps tidy namespaced
  by_cases scalar : ∃ other ∈ builder.scalarPaths (paths ++ flags), Path.keys? other = some keys
  · obtain ⟨other, member, found⟩ := scalar
    obtain ⟨⟨asked', given, rfl⟩, -⟩ := mem_candidates.mp (List.mem_filter.mp member).1
    have plain := (List.mem_filter.mp member).2
    have same := Path.keys?_normalize (clean asked' given)
    have seen : ((paths ++ flags).any fun path =>
        Path.keys? path = some keys && !isDigest (Path.normalize path)) = true := by
      refine List.any_eq_true.mpr ⟨asked', given, Bool.and_eq_true_iff.mpr ⟨?_, plain⟩⟩
      exact decide_eq_true (same.symm.trans found)
    rw [isFlagged, seen, Bool.and_true, ← leafValue]
    exact ends.everyBranch_leaf clean member found
  · push Not at scalar
    have whole := (Path.keys?_normalize (clean path asked)).trans read
    have digest : Path.normalize path ∈ builder.digestPaths (paths ++ flags) := by
      refine List.mem_filter.mpr ⟨candidate, ?_⟩
      by_contra plain
      exact scalar _ (List.mem_filter.mpr ⟨candidate, by simpa using plain⟩) whole
    have long : 2 ≤ keys.length := by
      obtain ⟨name, -, ⟨found, -⟩ | ⟨more, -, found⟩⟩ := keys_of_mem_digestPaths clean digest
      · obtain rfl := Option.some.inj (found.symm.trans whole)
        simp
      · obtain rfl := Option.some.inj (found.symm.trans whole)
        simp
    have unseen : ((paths ++ flags).any fun path =>
        Path.keys? path = some keys && !isDigest (Path.normalize path)) = false := by
      rw [List.any_eq_false]
      intro other given holds
      obtain ⟨found, plain⟩ := Bool.and_eq_true_iff.mp holds
      have found := of_decide_eq_true found
      refine scalar (Path.normalize other) (List.mem_filter.mpr ⟨?_, plain⟩) ?_
      · exact mem_candidates_of_keys? clean given found long
      · rw [Path.keys?_normalize (clean other given), found]
    rw [isFlagged, unseen, Bool.and_false]
    exact ends.everyBranch_payload clean digest whole scalar

end Clean

/-- A flag is true in every element of a collection, and what is read from the payload of events is
its last name. -/
theorem build_reads_values_of_items :
    EveryBranch (fun value => value = .bool true) ["payload", "items", "done"]
        ((standard "").build ["payload.items[2].done", "steps.digest.events[0].payload.id"]
          [⟨"payload.orders", 2⟩] ["payload.items[0].done"]) ∧
      EveryBranch (fun value => value = .string "id") ["steps", "digest", "events", "payload", "id"]
        ((standard "").build ["payload.items[2].done", "steps.digest.events[0].payload.id"]
          [⟨"payload.orders", 2⟩] ["payload.items[0].done"]) := by
  have clean : ∀ path ∈ ["payload.items[2].done", "steps.digest.events[0].payload.id"] ++
      ["payload.items[0].done"], Path.isClean path := by decide +kernel
  constructor
  · have flagged : isFlagged ["payload.items[2].done", "steps.digest.events[0].payload.id"]
        ["payload.items[0].done"] ["payload", "items", "done"] = true := by decide +kernel
    have reached := @build_reads_values (standard "") [⟨"payload.orders", 2⟩] _ _
      ["payload", "items", "done"] clean "payload.items[2].done" (by decide) (by decide +kernel)
      (by decide +kernel)
      ⟨by decide +kernel, by decide +kernel, by decide +kernel, by decide +kernel⟩
    rw [flagged] at reached
    exact reached
  · have unflagged : isFlagged ["payload.items[2].done", "steps.digest.events[0].payload.id"]
        ["payload.items[0].done"] ["steps", "digest", "events", "payload", "id"] = false := by
      decide +kernel
    have reached := @build_reads_values (standard "") [⟨"payload.orders", 2⟩] _ _
      ["steps", "digest", "events", "payload", "id"] clean "steps.digest.events[0].payload.id"
      (by decide) (by decide +kernel) (by decide +kernel)
      ⟨by decide +kernel, by decide +kernel, by decide +kernel, by decide +kernel⟩
    rw [unflagged] at reached
    exact reached

/-- A flag that is read from the payload of events is not true, though nothing else is asked for. -/
theorem build_misses_flag :
    Path.isClean "steps.d.events.payload.show" ∧
      (Path.normalize "steps.d.events.payload.show").toList.contains '.' ∧
      Path.keys? "steps.d.events.payload.show" = some ["steps", "d", "events", "payload", "show"] ∧
      IsEnd (standard "") [] [] ["steps.d.events.payload.show"]
        ["steps", "d", "events", "payload", "show"] ∧
      ¬ EveryBranch (fun value => value = .bool true) ["steps", "d", "events", "payload", "show"]
        ((standard "").build [] [] ["steps.d.events.payload.show"]) := by
  refine ⟨by decide +kernel, by decide +kernel, by decide +kernel,
    ⟨by decide +kernel, by decide +kernel, by decide +kernel, by decide +kernel⟩, fun reached => ?_⟩
  have textless : ∀ value : Json, value = .bool true → value.string? = none := by
    rintro value rfl
    rfl
  exact absurd (reached.mono textless) (by decide +kernel)

end MessageTemplate.Example.Builder
