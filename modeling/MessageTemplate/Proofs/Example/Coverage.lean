import MessageTemplate.Proofs.Example.Writes
import MessageTemplate.Proofs.Path.Steps
import Mathlib.Data.Finset.Max

/-! # What can be read from example data

Every path that example data is asked for can be read from it, in every branch. -/

namespace MessageTemplate.Example

open Json

/-! ## The paths that data is made for -/

theorem mem_foldl_distinct {texts seen : List String} {text : String} :
    text ∈ texts.foldl (fun seen text => if seen.contains text then seen else seen ++ [text]) seen ↔
      text ∈ seen ∨ text ∈ texts := by
  induction texts generalizing seen with
  | nil => simp
  | cons first texts ih =>
    rw [List.foldl_cons, ih]
    by_cases present : first ∈ seen
    · have : seen.contains first = true := List.contains_iff_mem.mpr present
      rw [if_pos this, List.mem_cons]
      constructor
      · rintro (old | later)
        · exact .inl old
        · exact .inr (.inr later)
      · rintro (old | rfl | later)
        · exact .inl old
        · exact .inl present
        · exact .inr later
    · have : ¬ seen.contains first = true := fun found => present (List.contains_iff_mem.mp found)
      rw [if_neg this, List.mem_append, List.mem_singleton, List.mem_cons, or_assoc]

theorem mem_distinct {texts : List String} {text : String} :
    text ∈ distinct texts ↔ text ∈ texts := by
  rw [distinct, mem_foldl_distinct]
  simp

theorem nodup_foldl_distinct {texts seen : List String} (once : seen.Nodup) :
    (texts.foldl (fun seen text => if seen.contains text then seen else seen ++ [text])
      seen).Nodup := by
  induction texts generalizing seen with
  | nil => exact once
  | cons first texts ih =>
    rw [List.foldl_cons]
    split
    · exact ih once
    · next absent =>
      refine ih (List.nodup_append.mpr ⟨once, by simp, ?_⟩)
      rintro other present _ here rfl
      rw [List.mem_singleton.mp here] at present
      exact absent (List.contains_iff_mem.mpr present)

theorem nodup_distinct (texts : List String) : (distinct texts).Nodup :=
  nodup_foldl_distinct List.nodup_nil

theorem mem_sortByDepth {α : Type} {path : α → String} {items : List α} {item : α} :
    item ∈ sortByDepth path items ↔ item ∈ items := List.mem_mergeSort

theorem Builder.mem_candidates {builder : Builder} {paths : List String} {path : String} :
    path ∈ builder.candidates paths ↔
      (∃ asked ∈ paths, Path.normalize asked = path) ∧ path ≠ "" ∧ builder.isNamespaced path := by
  simp [candidates, mem_distinct]

/-! ## The events of digest steps -/

theorem eventsOf_eq_self {path : String} (none : StepPath.eventPayload? path = none) :
    eventsOf path = path := by
  rw [eventsOf, none]

/-- A digest path belongs to the events of a step. -/
theorem exists_eventsText_of_isDigest {path : String} (digest : isDigest path) :
    ∃ name, name ≠ [] ∧ name.all StepPath.isStepChar ∧
      (eventsOf path).toList = StepPath.eventsText name := by
  rw [isDigest, Bool.or_eq_true] at digest
  rw [eventsOf]
  cases found : StepPath.eventPayload? path with
  | some payload =>
    obtain ⟨name, tail, full, plain, same, -, -⟩ :=
      StepPath.payloadOf?_eq_some (StepPath.eventPayload?_eq_some found)
    exact ⟨name, full, plain, same⟩
  | none =>
    rw [found] at digest
    exact StepPath.isEvents_eq_true (digest.resolve_left Bool.false_ne_true)

theorem keys?_eventsText {events : String} {name : List Char} (full : name ≠ [])
    (plain : name.all StepPath.isStepChar) (same : events.toList = StepPath.eventsText name) :
    Path.keys? events = some ["steps", String.ofList name, "events"] :=
  Path.keys?_of_split? (StepPath.split?_of_eventsText full plain same)

theorem everyBranch_exampleEvents {builder : Builder} {arrays : List DeclaredArray}
    {digestPaths names : List String} {events : String} {good : Json → Prop}
    (inside : EveryBranch good names (payloadOfEvents digestPaths events)) :
    EveryBranch good ("payload" :: names)
      (builder.exampleEvents arrays digestPaths events) := by
  apply EveryBranch.elements
  intro event member
  rw [List.eq_of_mem_replicate member]
  exact .member rfl inside

/-- What is asked from the payload of events can be read from it. -/
theorem everyBranch_payload {digestPaths keys : List String} {path : String}
    (member : path ∈ digestPaths) (read : Path.keys? (payloadPath path) = some keys) :
    EveryBranch (fun _ => True) keys (payloadOfEvents digestPaths (eventsOf path)) := by
  rw [payloadOfEvents_eq]
  have grouped : path ∈ digestPaths.filter fun other => eventsOf other = eventsOf path :=
    List.mem_filter.mpr ⟨member, by simp⟩
  exact everyBranch_writesAt grouped read

/-- What can be read behind the events of a step is the payload, and what is asked from it. -/
theorem someBranch_exampleEvents {builder : Builder} {arrays : List DeclaredArray}
    {digestPaths names : List String} {events : String}
    (reached : SomeBranch names (builder.exampleEvents arrays digestPaths events)) :
    names <+: ["payload"] ∨ ∃ path ∈ digestPaths, eventsOf path = events ∧
      ∃ keys, Path.keys? (payloadPath path) = some keys ∧ names <+: "payload" :: keys := by
  cases reached with
  | here => exact .inl List.nil_prefix
  | element member inside =>
    rw [List.eq_of_mem_replicate member] at inside
    obtain ⟨next, found, later⟩ := (someBranch_cons_of_plain rfl).mp inside
    simp only [member?, Keyed.get?, Option.ite_none_right_eq_some, Option.some.injEq] at found
    obtain ⟨rfl, rfl⟩ := found
    rw [payloadOfEvents_eq] at later
    have bare : ∀ write ∈ payloadWrites digestPaths events, Bare write.2 := by
      intro write written
      obtain ⟨path, -, keys, -, rfl⟩ := mem_writesAt.mp written
      exact bare_string _
    rcases someBranch_of_placeAll_bare bare later with empty | ⟨write, written, start⟩
    · rw [someBranch_empty empty]
      exact .inl List.prefix_rfl
    · obtain ⟨path, grouped, keys, read, rfl⟩ := mem_writesAt.mp written
      obtain ⟨given, same⟩ := List.mem_filter.mp grouped
      exact .inr ⟨path, given, of_decide_eq_true same, keys, read,
        List.cons_prefix_cons.mpr ⟨rfl, start⟩⟩

/-- A faithful digest path is the events of a step, or has their keys, the payload, and what is read
from it. -/
theorem keys_of_isDigest {segments : List Segment} (faithful : Path.Faithful segments)
    (digest : isDigest (Path.join segments)) :
    ∃ name, Path.keys? (eventsOf (Path.join segments)) = some ["steps", name, "events"] ∧
      (StepPath.isEvents (Path.join segments) ∧
          StepPath.eventPayload? (Path.join segments) = none ∨
        ∃ more, Path.keys? (payloadPath (Path.join segments)) = some more ∧
          segments.filterMap Segment.key? = ["steps", name, "events"] ++ "payload" :: more) := by
  cases found : StepPath.eventPayload? (Path.join segments) with
  | none =>
    obtain ⟨name, full, plain, same⟩ := exists_eventsText_of_isDigest digest
    refine ⟨_, keys?_eventsText full plain same, .inl ⟨?_, rfl⟩⟩
    simpa [isDigest, found] using digest
  | some payload =>
    obtain ⟨events, rest⟩ := payload
    obtain ⟨name, position, inner, rfl, positions, innerTidy, rfl, rfl⟩ :=
      faithful.eventPayload? found
    have named := faithful.all (.key name) (by simp)
    have group := keys?_eventsText (Path.toList_ne_nil_of_isTidy named)
      (Path.isStepChar_of_isTidy named) (StepPath.toList_join_events name)
    rw [String.ofList_toList] at group
    have innerRead := Path.split?_join innerTidy
    have stripped := Path.split?_join innerTidy.propertySegments
    refine ⟨name, ?_, .inr ⟨inner.filterMap Segment.key?, ?_, ?_⟩⟩
    · simpa only [eventsOf, found] using group
    · simp only [payloadPath, found]
      rw [Path.stripIndices_of_split? innerRead, Path.keys?_of_split? stripped,
        Path.filterMap_key?_propertySegments]
    · simp [Segment.key?, positions]

/-- The events of a step are no path into their payload. -/
theorem eventPayload?_of_isEvents {segments : List Segment} (faithful : Path.Faithful segments)
    (events : StepPath.isEvents (Path.join segments)) :
    StepPath.eventPayload? (Path.join segments) = none := by
  obtain ⟨name, -, ⟨-, none⟩ | ⟨more, -, whole⟩⟩ :=
    keys_of_isDigest faithful (by simp [isDigest, events])
  · exact none
  · obtain ⟨other, full, plain, written⟩ := StepPath.isEvents_eq_true events
    have keys := keys?_eventsText full plain written
    rw [Path.keys?_of_split? (Path.split?_join faithful.toTidy), whole] at keys
    simp at keys

section Digest

variable {builder : Builder} {arrays : List DeclaredArray} {digestPaths : List String}
  (digest : ∀ path ∈ digestPaths, isDigest path)

include digest

/-- The keys of the events of different steps differ, and none leads on from another one. -/
theorem pairwise_digestWrites :
    (builder.digestWrites arrays digestPaths).Pairwise fun left right => left.1 ≠ right.1 := by
  rw [Builder.digestWrites, writesAt, List.pairwise_filterMap]
  refine (nodup_distinct _).imp_of_mem fun {first second} firstIn secondIn differ => ?_
  rintro ⟨left, _⟩ here ⟨right, _⟩ there same
  obtain ⟨path, present, rfl⟩ := List.mem_map.mp (mem_distinct.mp firstIn)
  obtain ⟨other, otherPresent, rfl⟩ := List.mem_map.mp (mem_distinct.mp secondIn)
  obtain ⟨name, full, plain, written⟩ := exists_eventsText_of_isDigest (digest path present)
  obtain ⟨otherName, otherFull, otherPlain, otherWritten⟩ :=
    exists_eventsText_of_isDigest (digest other otherPresent)
  rw [id, keys?_eventsText full plain written] at here
  rw [id, keys?_eventsText otherFull otherPlain otherWritten] at there
  cases here
  cases there
  simp only [List.cons.injEq, String.ofList_inj, and_true, true_and] at same
  exact differ (String.toList_inj.mp (by rw [written, otherWritten, same]))

theorem length_of_mem_digestWrites {write : Write}
    (member : write ∈ builder.digestWrites arrays digestPaths) : write.1.length = 3 := by
  obtain ⟨events, present, keys, read, rfl⟩ := mem_writesAt.mp member
  obtain ⟨path, given, rfl⟩ := List.mem_map.mp (mem_distinct.mp present)
  obtain ⟨name, full, plain, written⟩ := exists_eventsText_of_isDigest (digest path given)
  rw [id, keys?_eventsText full plain written] at read
  cases read
  rfl

/-- Nothing is written along the keys of the events of a step before the events are. -/
theorem not_someBranch_before {before after : List Write} {write : Write}
    (split : builder.digestWrites arrays digestPaths = before ++ write :: after) :
    ¬ SomeBranch write.1 (placeAll before (.object [])) := by
  have differ := @pairwise_digestWrites builder arrays digestPaths digest
  have lengths := @length_of_mem_digestWrites builder arrays digestPaths digest
  rw [split] at differ lengths
  have here := lengths (List.mem_append_right _ List.mem_cons_self)
  intro reached
  rcases someBranch_of_placeAll reached with empty | ⟨other, member, start⟩
  · rw [someBranch_empty empty] at here
    cases here
  · have there := lengths (List.mem_append_left (write :: after) member)
    refine (List.pairwise_append.mp differ).2.2 other member write List.mem_cons_self ?_
    rcases start with start | ⟨more, same, -⟩
    · exact (start.eq_of_length (here.trans there.symm)).symm
    · rw [same, List.length_append] at here
      have none : more = [] := List.eq_nil_of_length_eq_zero (by omega)
      rw [same, none, List.append_nil]

/-- Once the events of all steps are written, those of each step are there as they are written. -/
theorem everyBranch_events {path : String} {keys : List String} (member : path ∈ digestPaths)
    (read : Path.keys? (eventsOf path) = some keys) :
    EveryBranch (fun value => value = builder.exampleEvents arrays digestPaths (eventsOf path)) keys
      (placeAll (builder.digestWrites arrays digestPaths) (.object [])) := by
  have write : (keys, builder.exampleEvents arrays digestPaths (eventsOf path)) ∈
      builder.digestWrites arrays digestPaths :=
    mem_writesAt.mpr ⟨_, mem_distinct.mpr (List.mem_map_of_mem member), keys, read, rfl⟩
  have here : keys.length = 3 := length_of_mem_digestWrites digest write
  have full : keys ≠ [] := List.ne_nil_of_length_pos (by omega)
  have differ := @pairwise_digestWrites builder arrays digestPaths digest
  have lengths := @length_of_mem_digestWrites builder arrays digestPaths digest
  obtain ⟨before, after, split⟩ := List.append_of_mem write
  have vacant := eachBranch_of_not_someBranch (not_someBranch_before digest split) vacant_none
  rw [split] at differ lengths ⊢
  refine everyBranch_placeAll_of_vacant full vacant rfl fun later present rest whole => ?_
  -- the keys of other events are as many, but others
  have there : keys.length + rest.length = 3 := by
    rw [← List.length_append, ← whole]
    exact lengths (List.mem_append_right _ (List.mem_cons_of_mem _ present))
  obtain rfl : rest = [] := List.eq_nil_of_length_eq_zero (by omega)
  have others := (List.pairwise_cons.mp (List.pairwise_append.mp differ).2.1).1 later present
  exact absurd (by rw [whole, List.append_nil]) others

/-- What can be read from the payload of an event can be read in every branch behind the events. -/
theorem everyBranch_digestWrites {path : String} {keys more : List String} {good : Json → Prop}
    (member : path ∈ digestPaths) (read : Path.keys? (eventsOf path) = some keys)
    (inside : EveryBranch good more (payloadOfEvents digestPaths (eventsOf path))) :
    EveryBranch good (keys ++ "payload" :: more)
      (placeAll (builder.digestWrites arrays digestPaths) (.object [])) := by
  refine EveryBranch.append ((everyBranch_events digest member read).mono fun value same => ?_)
  rw [same]
  exact everyBranch_exampleEvents inside

/-- A faithful digest path is read in every branch once the events are written. -/
theorem everyBranch_of_isDigest {segments : List Segment} (faithful : Path.Faithful segments)
    (member : Path.join segments ∈ digestPaths) :
    EveryBranch (fun _ => True) (segments.filterMap Segment.key?)
      (placeAll (builder.digestWrites arrays digestPaths) (.object [])) := by
  obtain ⟨name, group, ⟨-, none⟩ | ⟨more, read, whole⟩⟩ :=
    keys_of_isDigest faithful (digest _ member)
  · have keys := group
    rw [eventsOf_eq_self none, Path.keys?_of_split? (Path.split?_join faithful.toTidy),
      Option.some.injEq] at keys
    rw [keys]
    exact (everyBranch_digestWrites digest member group (.here trivial)).of_isPrefix
      (List.prefix_append _ ["payload"])
  · rw [whole]
    exact everyBranch_digestWrites digest member group (everyBranch_payload member read)

end Digest

/-! ## Values -/

/-- From each path that is no leaf, a leaf leads on. -/
theorem exists_leaf {paths : List String} {path : String} (member : path ∈ paths) :
    ∃ leaf ∈ paths, (leaf = path ∨ Path.isStrictPrefix path leaf) ∧
      ∀ other ∈ paths, ¬ Path.isStrictPrefix leaf other := by
  have here : path ∈ (paths.filter fun other =>
      other = path ∨ Path.isStrictPrefix path other).toFinset := by simp [member]
  -- the longest path that leads on from this one is a leaf
  obtain ⟨leaf, found, longest⟩ :=
    Finset.exists_max_image _ (fun other : String => other.toList.length) ⟨path, here⟩
  simp only [List.mem_toFinset, List.mem_filter, decide_eq_true_eq] at found longest
  refine ⟨leaf, found.1, found.2, ?_⟩
  intro other present leads
  have further : Path.isStrictPrefix path other := by
    rcases found.2 with rfl | before
    · exact leads
    · exact Path.isStrictPrefix_trans before leads
  have := longest other ⟨present, .inr further⟩
  have := Path.length_lt_of_isStrictPrefix leads
  omega

namespace Builder

variable {builder : Builder}

theorem mem_leaves {paths : List String} {path : String} :
    path ∈ leaves paths ↔ (∃ asked ∈ paths, Path.stripIndices asked = path) ∧
      ∀ other ∈ paths, ¬ Path.isStrictPrefix path (Path.stripIndices other) := by
  simp [leaves, mem_sortByDepth, mem_distinct]

/-- A path is read in every branch once the values are written, unless a text that is no path
stands in for what leads on from it. -/
theorem everyBranch_leafWrites {flags paths : List String} {segments : List Segment} {root : Json}
    (tidy : Path.Tidy segments) (member : Path.join segments ∈ paths)
    (free : ∀ other ∈ paths, ¬ Path.blocks other (Path.join segments)) :
    EveryBranch (fun _ => True) (segments.filterMap Segment.key?)
      (placeAll (builder.leafWrites flags paths) root) := by
  have bare := Path.stripIndices_of_split? (Path.split?_join tidy)
  have read := Path.split?_join tidy.propertySegments
  obtain ⟨leaf, present, reach, last⟩ :=
    exists_leaf (List.mem_map_of_mem (f := Path.stripIndices) member)
  obtain ⟨asked, given, rfl⟩ := List.mem_map.mp present
  have unpruned : Path.stripIndices asked ∈ leaves paths := by
    refine mem_leaves.mpr ⟨⟨asked, given, rfl⟩, fun other here => last _ (List.mem_map_of_mem here)⟩
  have written : ∀ keys, Path.keys? (Path.stripIndices asked) = some keys →
      EveryBranch (fun _ => True) keys (placeAll (builder.leafWrites flags paths) root) :=
    fun keys found => everyBranch_writesAt unpruned found
  rw [bare] at reach
  rcases reach with same | leads
  · refine written _ ?_
    rw [same, Path.keys?_of_split? read, Path.filterMap_key?_propertySegments]
  · have unblocked := free asked given
    rw [Path.blocks, bare, leads, Bool.true_and, Option.isNone_iff_eq_none] at unblocked
    obtain ⟨whole, further⟩ := Option.ne_none_iff_exists'.mp unblocked
    have start :=
      Path.split?_prefix_of_isStrictPrefix tidy.propertySegments.tight read further leads
    refine (written _ (Path.keys?_of_split? further)).of_isPrefix ?_
    rw [← Path.filterMap_key?_propertySegments]
    exact start.filterMap _

theorem join_mem_candidates {paths : List String} {asked : String} {segments : List Segment}
    (member : asked ∈ paths) (read : Path.split? asked = some segments) (tidy : Path.Tidy segments)
    (named : builder.isNamespaced (Path.join segments)) :
    Path.join segments ∈ builder.candidates paths := by
  refine mem_candidates.mpr ⟨⟨asked, member, Path.normalize_of_split? read⟩, fun empty => ?_, named⟩
  have back := Path.split?_join tidy
  have none : Path.split? "" = none := by decide
  rw [empty, none] at back
  cases back

/-- Whether a text that is no path stands in for what leads on from a path. Only paths that are not
into events are left out for others. -/
def isBlocked (builder : Builder) (asked : List String) (path : String) : Bool :=
  !isDigest (Path.normalize path) &&
    (builder.scalarPaths asked).any fun other => Path.blocks other path

/-- A faithful path that example data is asked for can be read from it in every branch, unless a
text that is no path stands in for what leads on from it. -/
theorem everyBranch_build {paths flags : List String} {arrays : List DeclaredArray} {path : String}
    {segments : List Segment} (asked : path ∈ paths ++ flags)
    (steps : Path.split? path = some segments) (faithful : Path.Faithful segments)
    (named : builder.isNamespaced (Path.normalize path))
    (free : ¬ builder.isBlocked (paths ++ flags) path) :
    EveryBranch (fun _ => True) (segments.filterMap Segment.key?)
      (builder.build paths arrays flags) := by
  have usual := Path.normalize_of_split? steps
  rw [usual] at named
  rw [isBlocked, usual] at free
  have candidate := join_mem_candidates asked steps faithful.toTidy named
  rw [build_eq_placeAll, placeAll_append, placeAll_append]
  by_cases digest : isDigest (Path.join segments)
  · have member : Path.join segments ∈ builder.digestPaths (paths ++ flags) :=
      List.mem_filter.mpr ⟨candidate, digest⟩
    have all : ∀ other ∈ builder.digestPaths (paths ++ flags), isDigest other :=
      fun other present => (List.mem_filter.mp present).2
    exact everyBranch_placeAll_kept
      (everyBranch_placeAll_kept (everyBranch_of_isDigest all faithful member))
  · have member : Path.join segments ∈ builder.scalarPaths (paths ++ flags) :=
      List.mem_filter.mpr ⟨candidate, by simpa using digest⟩
    apply everyBranch_leafWrites faithful.toTidy member
    intro other present blocked
    rw [Path.blocks, Path.stripIndices_of_split? (Path.split?_join faithful.toTidy),
      ← Path.stripIndices_of_split? steps, ← Path.blocks] at blocked
    refine free (Bool.and_eq_true_iff.mpr ⟨by simpa using digest, ?_⟩)
    exact List.any_eq_true.mpr ⟨other, present, blocked⟩

end Builder

end MessageTemplate.Example
