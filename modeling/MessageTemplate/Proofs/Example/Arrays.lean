import MessageTemplate.Proofs.Example.Collections
import MessageTemplate.Proofs.Path.KeyPath

/-! # Where arrays stand in example data

Only the events of digest steps and the collections are written as arrays, and a collection is not
written where the events have an object already. So arrays stand only where events or collections are
written; no array holds another one, and nothing is null (`sound_build`). A chain of names can then
be followed through objects alone, as far as no collection stands on its way. -/

namespace MessageTemplate.Example

open Json Engine

/-! ## Values with arrays in certain places -/

/-- A value that some names lead to. It is not null and holds no null; its arrays stand behind
certain names, and hold no arrays themselves. -/
inductive Sound (arrays : List String → Prop) : List String → Json → Prop where
  | scalar {names : List String} {value : Json} :
      value.items? = none → value.members? = none → value ≠ .null → Sound arrays names value
  | object {names : List String} {members : List (String × Json)} :
      (∀ name value, Keyed.get? name members = some value → Sound arrays (names ++ [name]) value) →
      Sound arrays names (.object members)
  | array {names : List String} {items : List Json} :
      arrays names → (∀ item ∈ items, item.items? = none) →
      (∀ item ∈ items, Sound arrays names item) → Sound arrays names (.array items)

section Sound

variable {arrays : List String → Prop} {names keys : List String} {value : Json}

theorem Sound.ne_null (sound : Sound arrays names value) : value ≠ .null := by
  cases sound with
  | scalar _ _ filled => exact filled
  | object => exact Json.noConfusion
  | array => exact Json.noConfusion

theorem Sound.items?_eq_none (sound : Sound arrays names value) (none : ¬ arrays names) :
    value.items? = .none := by
  cases sound with
  | scalar plain => exact plain
  | object => rfl
  | array here => exact absurd here none

theorem sound_of_plain (plain : value.items? = none) (filled : value ≠ .null)
    (all : ∀ name next, value.member? name = some next → Sound arrays (names ++ [name]) next) :
    Sound arrays names value := by
  cases value with
  | object members => exact .object all
  | array items => cases plain
  | null => contradiction
  | bool | number | string => exact .scalar rfl rfl filled

theorem Sound.of_member? {name : String} {next : Json} (sound : Sound arrays names value)
    (found : value.member? name = some next) : Sound arrays (names ++ [name]) next := by
  cases value with
  | object members =>
    cases sound with
    | scalar _ plain => cases plain
    | object all => exact all name next found
  | null | bool | number | string | array => cases found

theorem sound_empty : Sound arrays names (.object []) := .object fun _ _ missing => nomatch missing

theorem sound_repeated {count : Nat} {element : Json} (here : arrays names)
    (plain : element.items? = none) (sound : Sound arrays names element) :
    Sound arrays names (repeated count element) := by
  refine .array here (fun item member => ?_) fun item member => ?_
  · rwa [List.eq_of_mem_replicate member]
  · rwa [List.eq_of_mem_replicate member]

/-- The elements of a value are sound, and none is an array. -/
theorem Sound.of_mem_elementsOf {element : Json} (sound : Sound arrays names value)
    (member : element ∈ elementsOf value) :
    element.items? = none ∧ Sound arrays names element := by
  cases value with
  | array items =>
    cases sound with
    | scalar plain => cases plain
    | array _ plain all => exact ⟨plain element member, all element member⟩
  | null => cases member
  | bool | number | string | object =>
    cases List.mem_singleton.mp member
    exact ⟨rfl, sound⟩

/-! ## Following a chain of names -/

theorem follow?_cons (value : Json) (name : String) (rest : List String) :
    follow? value (name :: rest) = (value.member? name).bind fun next => follow? next rest :=
  List.foldlM_cons

theorem Sound.of_follow? {found : Json} (sound : Sound arrays names value)
    (followed : follow? value keys = some found) : Sound arrays (names ++ keys) found := by
  induction keys generalizing names value with
  | nil =>
    cases followed
    rwa [List.append_nil]
  | cons key rest ih =>
    rw [follow?_cons] at followed
    obtain ⟨next, here, later⟩ := Option.bind_eq_some_iff.mp followed
    rw [List.append_cons]
    exact ih (sound.of_member? here) later

/-- What is read in every branch behind some names is read behind the value that they are followed
to. -/
theorem everyBranch_of_follow? {good : Json → Prop} {more : List String} {found : Json}
    (reached : EveryBranch good (keys ++ more) value) (followed : follow? value keys = some found) :
    EveryBranch good more found := by
  induction keys generalizing value with
  | nil =>
    cases followed
    exact reached
  | cons key rest ih =>
    rw [follow?_cons] at followed
    obtain ⟨next, here, later⟩ := Option.bind_eq_some_iff.mp followed
    cases reached with
    | member present inside =>
      cases here.symm.trans present
      exact ih inside later
    | elements => cases here

theorem everyBranch_of_mem_elementsOf {good : Json → Prop} {name : String} {rest : List String}
    {element : Json} (reached : EveryBranch good (name :: rest) value)
    (member : element ∈ elementsOf value) : EveryBranch good (name :: rest) element := by
  cases reached with
  | member found inside =>
    cases List.mem_singleton.mp member
    exact .member found inside
  | elements all => exact all element member

/-- Names that are read in every branch can be followed through objects alone, and to something else
than null, if no array stands on the way. -/
theorem Sound.exists_follow? (sound : Sound arrays names value) (plain : value.items? = none)
    (reached : EveryBranch (fun _ => True) keys value)
    (flat : ∀ count < keys.length, 0 < count → ¬ arrays (names ++ keys.take count)) :
    ∃ found, follow? value keys = some found ∧ found ≠ .null := by
  induction keys generalizing names value with
  | nil => exact ⟨value, rfl, sound.ne_null⟩
  | cons key rest ih =>
    obtain ⟨next, here, later⟩ := (everyBranch_cons_of_plain plain).mp reached
    rw [follow?_cons, here, Option.bind_some]
    have inside := sound.of_member? here
    cases rest with
    | nil => exact ⟨next, rfl, inside.ne_null⟩
    | cons other rest =>
      refine ih inside (inside.items?_eq_none (flat 1 (by simp) (by simp))) later ?_
      intro count short some
      have := flat (count + 1) (by simpa using short) (by simp)
      rwa [List.take_succ_cons, List.append_cons] at this

end Sound

/-! ## Writes keep arrays in their places -/

section Writes

variable {arrays : List String → Prop} {names keys : List String} {value root : Json}

/-- A change that makes no arrays leaves an array that holds none as such. -/
theorem Sound.throughArrays {change : Json → Json} (sound : Sound arrays names root)
    (plain : ∀ value, (change value).items? = none)
    (changed : ∀ inner ∈ spread root, Sound arrays names inner →
      Sound arrays names (change inner)) : Sound arrays names (throughArrays change root) := by
  cases kind : root.items? with
  | none =>
    rw [throughArrays_of_plain kind]
    exact changed root (by simp [spread_of_plain kind]) sound
  | some items =>
    cases root with
    | array items =>
      cases sound with
      | scalar none => cases none
      | array here flat all =>
        have change_item : ∀ item ∈ items, Example.throughArrays change item = change item :=
          fun item member => throughArrays_of_plain (flat item member) change
        rw [Example.throughArrays, throughItems_eq_map, List.map_congr_left change_item]
        refine .array here (List.forall_mem_map.mpr fun item _ => plain item) ?_
        refine List.forall_mem_map.mpr fun item member => changed item ?_ (all item member)
        rw [spread_array]
        exact List.mem_flatMap.mpr ⟨item, member, by simp [spread_of_plain (flat item member)]⟩
    | null | bool | number | string | object => cases kind

/-- At the end of a write stands its value, or the array or object that stood there before. -/
theorem sound_written {old : Option Json} (before : ∀ next ∈ old, Sound arrays names next)
    (fits : Sound arrays names value ∨ ∃ next, old = some next ∧ isContainer next) :
    Sound arrays names (written value [] old) := by
  cases old with
  | none =>
    rcases fits with sound | ⟨next, missing, -⟩
    · exact sound
    · cases missing
  | some old =>
    rw [written]
    split
    · exact before old rfl
    · next gives =>
      rcases fits with sound | ⟨next, here, stays⟩
      · exact sound
      · cases here
        exact absurd stays gives

theorem writeInto_ne_null (value : Json) (key : String) (rest : List String) (root : Json) :
    writeInto value key rest root ≠ .null := by
  intro null
  have := member?_writeInto_self value key rest root
  rw [null] at this
  cases this

/-- A write keeps arrays in their places if its value has them there, or if it is not made because
an array or an object stands where it would be. -/
theorem sound_place (sound : Sound arrays names root)
    (fits : Sound arrays (names ++ keys) value ∨ EveryBranch (isContainer ·) keys root) :
    Sound arrays names (place value keys root) := by
  induction keys generalizing names root with
  | nil => exact sound
  | cons key rest ih =>
    rw [place_cons]
    refine sound.throughArrays (items?_writeInto value key rest) fun inner inside soundInner => ?_
    refine sound_of_plain (items?_writeInto value key rest inner)
      (writeInto_ne_null value key rest inner) fun name next found => ?_
    by_cases same : name = key
    · subst same
      rw [member?_writeInto_self, Option.some.injEq] at found
      subst found
      have before : ∀ old ∈ inner.member? name, Sound arrays (names ++ [name]) old :=
        fun old here => soundInner.of_member? here
      rw [List.append_cons] at fits
      have fitsInner := fits.imp_right fun kept => everyBranch_cons_iff.mp kept inner inside
      cases rest with
      | nil =>
        refine sound_written before (fitsInner.imp (by simp) ?_)
        rintro ⟨old, here, kept⟩
        cases kept with
        | here stays => exact ⟨old, here, stays⟩
      | cons other rest =>
        cases here : inner.member? name with
        | none =>
          refine ih sound_empty (fitsInner.imp_right ?_)
          rintro ⟨old, present, -⟩
          cases here.symm.trans present
        | some old =>
          refine ih (before old here) (fitsInner.imp_right ?_)
          rintro ⟨next, present, later⟩
          cases here.symm.trans present
          exact later
    · rw [member?_writeInto_of_ne same] at found
      exact soundInner.of_member? found

theorem everyBranch_isContainer {name : String} {rest : List String}
    (reached : EveryBranch (fun _ => True) (keys ++ name :: rest) root) :
    EveryBranch (isContainer ·) keys root := by
  induction keys generalizing root with
  | nil => cases reached <;> exact .here rfl
  | cons key keys ih =>
    apply everyBranch_cons_iff.mpr
    intro inner inside
    obtain ⟨next, found, later⟩ := everyBranch_cons_iff.mp reached inner inside
    exact ⟨next, found, ih later⟩

theorem isContainer_place {keys : List String} (value : Json) (holds : isContainer root) :
    isContainer (place value keys root) := by
  cases keys with
  | nil => exact holds
  | cons key rest => exact isContainer_place_cons value key rest root

/-- An array or an object stays one. -/
theorem everyBranch_isContainer_kept {names keys : List String} {root : Json}
    (reached : EveryBranch (isContainer ·) names root) (value : Json) :
    EveryBranch (isContainer ·) names (place value keys root) := by
  cases names with
  | nil =>
    cases reached with
    | here holds => exact .here (isContainer_place value holds)
  | cons name names =>
    refine everyBranch_place_of_keeps (List.cons_ne_nil _ _) (fun rest _ old holds => ?_) reached
    cases rest with
    | nil =>
      rw [written, if_pos holds]
      exact holds
    | cons => exact isContainer_place value holds

theorem isContainer_placeAll {writes : List Write} (holds : isContainer root) :
    isContainer (placeAll writes root) := by
  induction writes generalizing root with
  | nil => exact holds
  | cons write writes ih => exact ih (isContainer_place write.2 holds)

/-- Writes keep arrays in their places if each value has them there, or an array or an object stands
already where it would be. -/
theorem sound_placeAll {writes : List Write} (sound : Sound arrays names root)
    (fits : ∀ write ∈ writes, Sound arrays (names ++ write.1) write.2 ∨
      EveryBranch (isContainer ·) write.1 root) :
    Sound arrays names (placeAll writes root) := by
  induction writes generalizing root with
  | nil => exact sound
  | cons write writes ih =>
    obtain ⟨here, later⟩ := List.forall_mem_cons.mp fits
    exact ih (sound_place sound here) fun other member =>
      (later other member).imp_right fun kept => everyBranch_isContainer_kept kept write.2

end Writes

/-! ## Example data -/

theorem sound_payloadOfEvents {arrays : List String → Prop} (names digestPaths : List String)
    (events : String) : Sound arrays names (payloadOfEvents digestPaths events) := by
  rw [payloadOfEvents_eq]
  refine sound_placeAll sound_empty fun write member => .inl ?_
  obtain ⟨path, -, keys, -, rfl⟩ := mem_writesAt.mp member
  exact .scalar rfl rfl Json.noConfusion

theorem isContainer_payloadOfEvents (digestPaths : List String) (events : String) :
    isContainer (payloadOfEvents digestPaths events) := by
  rw [payloadOfEvents_eq]
  exact isContainer_placeAll rfl

namespace Builder

variable {builder : Builder} {declared : List DeclaredArray} {arrays : List String → Prop}

theorem sound_exampleEvents {names : List String} (here : arrays names) (digestPaths : List String)
    (events : String) :
    Sound arrays names (builder.exampleEvents declared digestPaths events) := by
  refine sound_repeated here rfl (.object fun name value found => ?_)
  simp only [Keyed.get?, Option.ite_none_right_eq_some, Option.some.injEq] at found
  obtain ⟨-, rfl⟩ := found
  exact sound_payloadOfEvents _ _ _

theorem ne_null_of_mem_leafWrites {flags paths : List String} {write : Write}
    (member : write ∈ builder.leafWrites flags paths) : write.2 ≠ .null := by
  obtain ⟨path, -, keys, -, rfl⟩ := mem_writesAt.mp member
  simp only [standIn]
  split_ifs <;> exact Json.noConfusion

/-- Arrays stand in example data only where events are written, and collections in whose place the
events have no object. -/
theorem sound_build {paths flags : List String}
    (events : ∀ path ∈ builder.digestPaths (paths ++ flags), ∀ keys,
      Path.keys? (eventsOf path) = some keys → arrays keys)
    (collections : ∀ array ∈ builder.collections declared (builder.scalarPaths (paths ++ flags)),
      ∀ keys, Path.keys? array.path = some keys → arrays keys ∨
        EveryBranch (isContainer ·) keys
          (placeAll (builder.digestWrites declared (builder.digestPaths (paths ++ flags)))
            (.object []))) :
    Sound arrays [] (builder.build paths declared flags) := by
  rw [build_eq_placeAll, placeAll_append]
  refine sound_placeAll (sound_placeAll sound_empty fun write member => .inl ?_) ?_
  · obtain ⟨group, present, keys, read, rfl⟩ := mem_writesAt.mp member
    obtain ⟨path, given, rfl⟩ := List.mem_map.mp (mem_distinct.mp present)
    exact sound_exampleEvents (events path given keys read) _ _
  · intro write member
    rcases List.mem_append.mp member with collection | leaf
    · obtain ⟨array, given, keys, read, rfl⟩ := mem_writesAt.mp collection
      refine (collections array given keys read).imp_left fun here => ?_
      exact sound_repeated here rfl sound_empty
    · obtain ⟨noItems, noMembers⟩ := plain_of_mem_leafWrites leaf
      exact .inl (.scalar noItems noMembers (ne_null_of_mem_leafWrites leaf))

/-! ## Reading from the events of a step -/

/-- Whether a collection stands behind some names, be it declared or implied by a position in a path
that example data is asked for. -/
def isCollection (builder : Builder) (declared : List DeclaredArray) (asked names : List String) :
    Bool :=
  (builder.collections declared (builder.scalarPaths asked)).any fun array =>
    Path.keys? array.path = some names

theorem isNamespaced_eventSteps (builder : Builder) (step : String) (keys : List String) :
    builder.isNamespaced (Path.join (Path.eventSteps step keys)) := by
  have dot : '.' ∈ (Path.join (Path.eventSteps step keys)).toList := by
    rw [Path.eventSteps, Path.toList_join (by decide), Path.joinFrom_true_key]
    simp
  simp [isNamespaced, dot]

variable {paths flags names : List String} {segments : List Segment}

/-- In example data, no array stands behind the first names of a path, from some number of them on,
unless a collection does. The events of steps stand behind three names. -/
theorem sound_build_of_path (low : Nat)
    (asked : Path.join segments ∈ builder.candidates (paths ++ flags))
    (faithful : Path.Faithful segments) (whole : segments.filterMap Segment.key? = names)
    (apart : ∀ count, low ≤ count → count < names.length → count ≠ 3)
    (flat : isDigest (Path.join segments) ∨ ∀ count, low ≤ count → count < names.length →
      ¬ builder.isCollection declared (paths ++ flags) (names.take count)) :
    Sound (fun keys => ∀ count, low ≤ count → count < names.length → keys ≠ names.take count) []
      (builder.build paths declared flags) := by
  have digests : ∀ path ∈ builder.digestPaths (paths ++ flags), isDigest path :=
    fun path member => (List.mem_filter.mp member).2
  refine sound_build (fun path member keys read => ?_) fun array given keys read => ?_
  · rintro count above below rfl
    obtain ⟨name, full, plain, same⟩ := exists_eventsText_of_isDigest (digests path member)
    rw [keys?_eventsText full plain same] at read
    have := congrArg List.length (Option.some.inj read)
    rw [List.length_take_of_le below.le] at this
    exact apart count above below this.symm
  · by_cases along : ∃ count, low ≤ count ∧ count < names.length ∧ keys = names.take count
    · obtain ⟨count, above, below, rfl⟩ := along
      rcases flat with digest | none
      · obtain ⟨name, rest, more⟩ := List.exists_cons_of_ne_nil
          (List.drop_eq_nil_iff.not.mpr below.not_ge)
        refine .inr (@everyBranch_isContainer _ _ name rest ?_)
        rw [← more, List.take_append_drop, ← whole]
        exact everyBranch_of_isDigest digests faithful (List.mem_filter.mpr ⟨asked, digest⟩)
      · refine absurd ?_ (none count above below)
        exact List.any_eq_true.mpr ⟨array, given, decide_eq_true read⟩
    · exact .inl fun count above below same => along ⟨count, above, below, same⟩

section Events

variable {step : String} {keys : List String}
  (isEvents : StepPath.isEvents (Path.join (Path.eventSteps step [])))
  (clean : ∀ key ∈ keys, (Segment.key key).isClean)
  (asked : Path.join (Path.eventSteps step keys) ∈ paths ++ flags)

include isEvents clean asked

theorem eventSteps_mem_candidates :
    Path.join (Path.eventSteps step keys) ∈ builder.candidates (paths ++ flags) := by
  have tidy := Path.tidy_eventSteps (Path.isTidy_of_isEvents isEvents) clean
  exact join_mem_candidates asked (Path.split?_join tidy) tidy
    (builder.isNamespaced_eventSteps step keys)

theorem everyBranch_eventSteps
    (free : ¬ builder.isBlocked (paths ++ flags) (Path.join (Path.eventSteps step keys))) :
    EveryBranch (fun _ => True) (["steps", step, "events"] ++ keys)
      (builder.build paths declared flags) := by
  have faithful := Path.faithful_eventSteps (Path.isTidy_of_isEvents isEvents) clean
  have read := Path.split?_join faithful.toTidy
  rw [← Path.filterMap_key?_eventSteps]
  refine everyBranch_build asked read faithful ?_ free
  rw [Path.normalize_of_split? read]
  exact builder.isNamespaced_eventSteps step keys

end Events

/-- The events of a step can be read from the example data that is made for them. -/
theorem exists_follow?_events {step : String}
    (isEvents : StepPath.isEvents (Path.join (Path.eventSteps step [])))
    (asked : Path.join (Path.eventSteps step []) ∈ paths ++ flags) :
    ∃ events, follow? (builder.build paths declared flags) ["steps", step, "events"] =
      some events := by
  have clean := List.forall_mem_nil fun key => (Segment.key key).isClean = true
  have faithful := Path.faithful_eventSteps (Path.isTidy_of_isEvents isEvents) clean
  have digest : isDigest (Path.join (Path.eventSteps step [])) := by simp [isDigest, isEvents]
  have free : ¬ builder.isBlocked (paths ++ flags) (Path.join (Path.eventSteps step [])) := by
    simp [isBlocked, Path.normalize_of_split? (Path.split?_join faithful.toTidy), digest]
  have sound := @sound_build_of_path builder declared paths flags _ _ 0
    (eventSteps_mem_candidates isEvents clean asked) faithful
    (Path.filterMap_key?_eventSteps step []) (fun count _ below => Nat.ne_of_lt below) (.inl digest)
  have plain := sound.items?_eq_none fun none => none 0 le_rfl (by simp) rfl
  obtain ⟨events, found, -⟩ := sound.exists_follow? plain
    (everyBranch_eventSteps isEvents clean asked free)
    fun count below _ none => none count (Nat.zero_le _) below rfl
  exact ⟨events, found⟩

/-- A chain of names behind the events of a step can be followed in each of them, unless a
collection stands on the way. -/
theorem exists_follow?_of_mem_elementsOf {step : String} {keys : List String}
    {events element : Json} (isEvents : StepPath.isEvents (Path.join (Path.eventSteps step [])))
    (clean : ∀ key ∈ keys, (Segment.key key).isClean) (full : keys ≠ [])
    (asked : Path.join (Path.eventSteps step keys) ∈ paths ++ flags)
    (free : ¬ builder.isBlocked (paths ++ flags) (Path.join (Path.eventSteps step keys)))
    (flat : isDigest (Path.join (Path.eventSteps step keys)) ∨
      ∀ count < keys.length, 0 < count →
        ¬ builder.isCollection declared (paths ++ flags)
          (["steps", step, "events"] ++ keys.take count))
    (followed : follow? (builder.build paths declared flags) ["steps", step, "events"] =
      some events)
    (member : element ∈ elementsOf events) :
    ∃ found, follow? element keys = some found ∧ found ≠ .null := by
  have behind : ∀ count, (["steps", step, "events"] ++ keys).take (3 + count) =
      ["steps", step, "events"] ++ keys.take count :=
    @List.take_length_add_append _ ["steps", step, "events"] keys
  have sound := @sound_build_of_path builder declared paths flags _ _ 4
    (eventSteps_mem_candidates isEvents clean asked)
    (Path.faithful_eventSteps (Path.isTidy_of_isEvents isEvents) clean)
    (Path.filterMap_key?_eventSteps step keys) (fun count above _ => Nat.ne_of_gt above)
    (flat.imp_right ?_)
  · have every := @everyBranch_eventSteps builder declared _ _ _ _ isEvents clean asked free
    obtain ⟨plain, inside⟩ := (sound.of_follow? followed).of_mem_elementsOf member
    obtain ⟨key, rest, rfl⟩ := List.exists_cons_of_ne_nil full
    have reached := everyBranch_of_mem_elementsOf (everyBranch_of_follow? every followed) member
    refine inside.exists_follow? plain reached fun count below some none => ?_
    refine none (3 + count) (by omega) (by simp at below ⊢; omega) ?_
    rw [behind]
    rfl
  · intro none count above below
    obtain ⟨more, rfl⟩ := Nat.exists_eq_add_of_le (Nat.le_of_succ_le above)
    rw [behind]
    exact none more (by simp at below; omega) (by omega)

end Builder

end MessageTemplate.Example
