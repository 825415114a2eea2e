import MessageTemplate.Example.Layout
import MessageTemplate.Proofs.Example.Exact

/-! # What digest steps leave for other writes

The events of digest steps are written before anything else. They put objects on the way to
themselves, as the payload of an event, and on the way from there to what is read from it. Other
names lead to no array and to no object then. -/

namespace MessageTemplate.Example.Builder

open Json

variable {builder : Builder} {arrays : List DeclaredArray} {asked names : List String}

theorem forall_isDigest : ∀ path ∈ builder.digestPaths asked, isDigest path :=
  fun _ member => (List.mem_filter.mp member).2

/-- The path of events is told by its names. -/
theorem eventsOf_eq_ofKeys {path : String} (digest : isDigest path)
    (read : Path.keys? (eventsOf path) = some names) : eventsOf path = Path.ofKeys names := by
  obtain ⟨name, full, plain, written⟩ := exists_eventsText_of_isDigest digest
  have texts := StepPath.toList_join_events (String.ofList name)
  rw [String.toList_ofList, ← written, String.toList_inj] at texts
  obtain rfl := Option.some.inj ((keys?_eventsText full plain written).symm.trans read)
  rw [← texts, Path.ofKeys, List.map_cons, List.map_cons, List.map_cons, List.map_nil]

section Clean

variable (clean : ∀ path ∈ asked, Path.isClean path)

include clean

/-- A digest path is the events of a step, or has their keys, the payload, and what is read from
it. -/
theorem keys_of_mem_digestPaths {path : String} (member : path ∈ builder.digestPaths asked) :
    ∃ name, Path.keys? (eventsOf path) = some ["steps", name, "events"] ∧
      (Path.keys? path = some ["steps", name, "events"] ∧ Path.keys? (payloadPath path) = none ∨
        ∃ more, Path.keys? (payloadPath path) = some more ∧
          Path.keys? path = some (["steps", name, "events"] ++ "payload" :: more)) := by
  obtain ⟨candidate, digest⟩ := List.mem_filter.mp member
  obtain ⟨-, -, segments, -, -, faithful, rfl, -⟩ := exists_asked_of_mem_candidates clean candidate
  obtain ⟨name, events, shape⟩ := keys_of_isDigest faithful digest
  refine ⟨name, events, ?_⟩
  rcases shape with ⟨-, none⟩ | ⟨more, inside, whole⟩
  · rw [eventsOf_eq_self none] at events
    exact .inl ⟨events, by rw [payloadPath_eq_empty none, keys?_empty]⟩
  · refine .inr ⟨more, inside, ?_⟩
    rw [Path.keys?_of_split? (Path.split?_join faithful.toTidy), whole]

theorem isInDigest_iff : builder.isInDigest asked names ↔ ∃ path ∈ builder.digestPaths asked,
    ∃ events keys, Path.keys? (eventsOf path) = some events ∧ Path.keys? path = some keys ∧
      names ≠ events ∧ (names <+: events ++ ["payload"] ∨ names <+: keys ∧ names ≠ keys) := by
  rw [isInDigest, List.any_eq_true]
  refine exists_congr fun path => and_congr_right fun member => ?_
  obtain ⟨name, events, ⟨whole, -⟩ | ⟨more, -, whole⟩⟩ := keys_of_mem_digestPaths clean member
  · simp [events, whole]
  · simp [events, whole]

/-- What stands behind the payload of events for the sake of digest steps. -/
theorem isInDigest_of_payload {path : String} {events more : List String}
    (member : path ∈ builder.digestPaths asked) (read : Path.keys? (eventsOf path) = some events)
    (inside : Path.keys? (payloadPath path) = some more) (start : names <+: more)
    (differs : names ≠ more) : builder.isInDigest asked (events ++ "payload" :: names) := by
  obtain ⟨name, group, ⟨-, none⟩ | ⟨others, found, whole⟩⟩ := keys_of_mem_digestPaths clean member
  · cases none.symm.trans inside
  · cases found.symm.trans inside
    cases group.symm.trans read
    refine (isInDigest_iff clean).mpr ⟨path, member, _, _, group, whole, by simp, .inr ⟨?_, ?_⟩⟩
    · simpa using start
    · simpa using differs

/-- No array and no object stands behind the payload of events that is not there for the sake of
digest steps. -/
theorem vacant_payloadOfEvents {events : String} {keys : List String}
    (read : Path.keys? events = some keys) (full : names ≠ [])
    (free : ¬ builder.isInDigest asked (keys ++ "payload" :: names)) :
    EachBranch Vacant names (payloadOfEvents (builder.digestPaths asked) events) := by
  rw [payloadOfEvents_eq]
  refine vacant_placeAll full (fun write written start => ?_) (fun write written more _ => ?_)
    (eachBranch_empty full vacant_none)
  · obtain ⟨path, grouped, more, inside, rfl⟩ := mem_writesAt.mp written
    obtain ⟨member, same⟩ := List.mem_filter.mp grouped
    rw [← of_decide_eq_true same] at read
    by_contra differs
    exact free (isInDigest_of_payload clean member read inside start differs)
  · obtain ⟨path, -, more, -, rfl⟩ := mem_writesAt.mp written
    exact eachBranch_vacant_of_scalar rfl _

theorem vacant_exampleEvents {events : String} {keys : List String}
    (read : Path.keys? events = some keys) (full : names ≠ [])
    (free : ¬ builder.isInDigest asked (keys ++ names)) (payload : names ≠ ["payload"]) :
    EachBranch Vacant names (builder.exampleEvents arrays (builder.digestPaths asked) events) := by
  obtain ⟨name, rest, rfl⟩ := List.exists_cons_of_ne_nil full
  apply eachBranch_cons_iff.mpr
  intro inner inside
  have event : inner =
      .object [("payload", payloadOfEvents (builder.digestPaths asked) events)] := by
    rw [exampleEvents, repeated, spread_array] at inside
    obtain ⟨item, present, inside⟩ := List.mem_flatMap.mp inside
    rw [List.eq_of_mem_replicate present, spread_of_plain rfl] at inside
    exact List.mem_singleton.mp inside
  subst event
  refine ⟨fun _ => vacant_none, fun next found => ?_⟩
  simp only [member?, Keyed.get?, Option.ite_none_right_eq_some, Option.some.injEq] at found
  obtain ⟨rfl, rfl⟩ := found
  refine vacant_payloadOfEvents clean read (fun empty => payload ?_) free
  rw [empty]

/-- Once the events are written, no array and no object stands behind names that do not lead to
events, unless it stands there for the sake of digest steps. -/
theorem vacant_digestWrites (full : names ≠ [])
    (apart : ∀ path ∈ builder.digestPaths asked, Path.keys? (eventsOf path) ≠ some names)
    (free : ¬ builder.isInDigest asked names) :
    EachBranch Vacant names
      (placeAll (builder.digestWrites arrays (builder.digestPaths asked)) (.object [])) := by
  have shape : ∀ write ∈ builder.digestWrites arrays (builder.digestPaths asked),
      names ≠ write.1 ∧ ¬ names <+: write.1 ++ ["payload"] := by
    intro write written
    obtain ⟨events, present, keys, read, rfl⟩ := mem_writesAt.mp written
    obtain ⟨path, member, rfl⟩ := List.mem_map.mp (mem_distinct.mp present)
    have differs : names ≠ keys := by
      rintro rfl
      exact apart path member read
    refine ⟨differs, fun start => free ?_⟩
    obtain ⟨name, -, ⟨whole, -⟩ | ⟨more, -, whole⟩⟩ := keys_of_mem_digestPaths clean member
    · exact (isInDigest_iff clean).mpr ⟨path, member, _, _, read, whole, differs, .inl start⟩
    · exact (isInDigest_iff clean).mpr ⟨path, member, _, _, read, whole, differs, .inl start⟩
  refine vacant_placeAll full (fun write written start => ?_) (fun write written more whole => ?_)
    (eachBranch_empty full vacant_none)
  · exact absurd (start.trans (List.prefix_append _ _)) (shape write written).2
  · obtain ⟨differs, free'⟩ := shape write written
    obtain ⟨events, present, keys, read, rfl⟩ := mem_writesAt.mp written
    dsimp only at whole differs free'
    refine vacant_exampleEvents clean read (fun empty => differs ?_) (whole ▸ free)
      fun payload => free' ?_
    · rw [whole, empty, List.append_nil]
    · rw [whole, payload]

end Clean

end MessageTemplate.Example.Builder
