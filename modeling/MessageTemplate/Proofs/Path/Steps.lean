import MessageTemplate.Proofs.Path.Prefix

/-! # Paths into the events of a digest step

What the library takes for a path into the payload of an event is one by its steps as well: the
name of the step, the events, perhaps a position, the payload, and what is read from it. -/

namespace MessageTemplate

open Text MessageTemplate.Path

namespace StepPath

/-- The text of the events of a step. -/
def eventsText (name : List Char) : List Char :=
  "steps".toList ++ '.' :: (name ++ '.' :: "events".toList)

theorem eventsText_eq (name : List Char) :
    eventsText name = "steps".toList ++ '.' :: (name ++ '.' :: "events".toList) := rfl

/-! ## Cutting the text -/

theorem step?_eq_some {text start rest : List Char} (cut : step? text = some (start, rest)) :
    ∃ name, name ≠ [] ∧ name.all isStepChar ∧ start = "steps.".toList ++ name ++ ['.'] ∧
      text = start ++ rest := by
  obtain ⟨behind, steps, cut⟩ := Option.bind_eq_some_iff.mp cut
  obtain ⟨after, dot, cut⟩ := Option.bind_eq_some_iff.mp cut
  split at cut
  · cases cut
  · next full =>
    cases cut
    refine ⟨behind.takeWhile isStepChar, by simpa using full, List.all_takeWhile, rfl, ?_⟩
    rw [isPrefixOf?_eq_some steps]
    have := isPrefixOf?_eq_some dot
    conv => lhs; rw [← List.takeWhile_append_dropWhile (p := isStepChar) (l := behind), this]
    simp

theorem events?_eq_some {text events rest : List Char} (cut : events? text = some (events, rest)) :
    ∃ name, name ≠ [] ∧ name.all isStepChar ∧ events = eventsText name ∧ text = events ++ rest := by
  obtain ⟨⟨start, behind⟩, step, cut⟩ := Option.bind_eq_some_iff.mp cut
  obtain ⟨after, field, cut⟩ := Option.bind_eq_some_iff.mp cut
  obtain ⟨name, full, plain, rfl, whole⟩ := step?_eq_some step
  cases cut
  refine ⟨name, full, plain, by simp [eventsText_eq], ?_⟩
  rw [whole, isPrefixOf?_eq_some field]
  simp

theorem dropIndex_eq (text : List Char) :
    dropIndex text = text ∨
      ∃ digits, digits.all isDecimalDigit ∧ text = '[' :: (digits ++ ']' :: dropIndex text) := by
  unfold dropIndex
  split
  · next rest =>
    split
    · next c digits after taken dropped =>
      right
      refine ⟨c :: digits, ?_, ?_⟩
      · rw [← taken]
        exact List.all_takeWhile
      · rw [← taken, ← dropped, List.takeWhile_append_dropWhile]
    · exact .inl rfl
  · exact .inl rfl

theorem payloadOf?_eq_some {text events rest : List Char}
    (cut : payloadOf? text = some (events, rest)) :
    ∃ name tail, name ≠ [] ∧ name.all isStepChar ∧ events = eventsText name ∧
      text = events ++ tail ∧ dropIndex tail = '.' :: ("payload".toList ++ '.' :: rest) := by
  obtain ⟨⟨start, behind⟩, field, cut⟩ := Option.bind_eq_some_iff.mp cut
  obtain ⟨after, inside, cut⟩ := Option.bind_eq_some_iff.mp cut
  obtain ⟨name, full, plain, rfl, whole⟩ := events?_eq_some field
  cases cut
  refine ⟨name, behind, full, plain, rfl, whole, ?_⟩
  rw [isPrefixOf?_eq_some inside]
  simp

theorem eventPayload?_eq_some {path events rest : String}
    (cut : eventPayload? path = some (events, rest)) :
    payloadOf? path.toList = some (events.toList, rest.toList) := by
  unfold eventPayload? at cut
  split at cut
  · next first last found =>
    split at cut
    · cases cut
    · cases cut
      rw [found, String.toList_ofList, String.toList_ofList]
  · cases cut

/-! ## The events of a step -/

theorem isEvents_eq_true {path : String} (events : isEvents path) :
    ∃ name, name ≠ [] ∧ name.all isStepChar ∧ path.toList = eventsText name := by
  unfold isEvents at events
  split at events
  · next first found =>
    obtain ⟨name, full, plain, rfl, whole⟩ := events?_eq_some found
    exact ⟨name, full, plain, by rw [whole, List.append_nil]⟩
  · cases events

theorem parts?_of_plain {name : List Char} (full : name ≠ []) (plain : name.all isStepChar) :
    parts? name = some [.key (String.ofList name)] := by
  have := @parts?_append_positionText name [] full plain (by simp)
  simpa [positionText] using this

theorem tight_eventsText (name : List Char) : Tight (eventsText name) := by
  constructor
  · intro c first
    cases first
    decide
  · intro c last
    have ends : (eventsText name).getLast? = some 's' := by
      have : eventsText name = "steps".toList ++ '.' :: name ++ ".event".toList ++ ['s'] := by
        simp [eventsText_eq]
      rw [this, List.getLast?_concat]
    cases ends.symm.trans last
    decide

theorem split?_of_eventsText {path : String} {name : List Char} (full : name ≠ [])
    (plain : name.all isStepChar) (whole : path.toList = eventsText name) :
    split? path = some [.key "steps", .key (String.ofList name), .key "events"] := by
  have steps : parts? "steps".toList = some [.key "steps"] :=
    parts?_of_plain (by decide) (by decide)
  have events : parts? "events".toList = some [.key "events"] :=
    parts?_of_plain (by decide) (by decide)
  rw [split?_eq_some, whole, trim_eq_self (tight_eventsText name)]
  refine ⟨by simp [eventsText_eq], parts?_append_dot_eq_some.mpr ⟨_, _, steps, ?_, rfl⟩⟩
  exact parts?_append_dot_eq_some.mpr ⟨_, _, parts?_of_plain full plain, events, rfl⟩

/-! ## Tidy steps -/

theorem takeWhile_append_eq {left more : List Char} (plain : left.all isStepChar)
    (stop : ∀ c ∈ more.head?, isStepChar c = false) :
    (left ++ more).takeWhile isStepChar = left := by
  rw [List.takeWhile_append_of_pos (List.all_eq_true.mp plain)]
  cases more with
  | nil => exact List.append_nil left
  | cons c more => rw [List.takeWhile_cons_of_neg (by simp [stop c rfl]), List.append_nil]

/-- Where a name ends in a text is plain to see. -/
theorem append_inj_of_plain {left right more others : List Char} (leftPlain : left.all isStepChar)
    (rightPlain : right.all isStepChar) (leftStop : ∀ c ∈ more.head?, isStepChar c = false)
    (rightStop : ∀ c ∈ others.head?, isStepChar c = false) (same : left ++ more = right ++ others) :
    left = right ∧ more = others := by
  have names : left = right := by
    rw [← takeWhile_append_eq leftPlain leftStop, same, takeWhile_append_eq rightPlain rightStop]
  exact ⟨names, List.append_cancel_left (names ▸ same)⟩

theorem isStepChar_head?_joinFrom (segments : List Segment) :
    ∀ c ∈ (joinFrom true segments).head?, isStepChar c = false := by
  intro c first
  cases segments with
  | nil => cases first
  | cons segment segments =>
    cases segment with
    | key name =>
      rw [joinFrom_true_key] at first
      cases first
      decide
    | index position =>
      rw [joinFrom_true_index] at first
      cases first
      decide

theorem joinFrom_eq_dot {segments : List Segment} {rest : List Char}
    (dotted : joinFrom true segments = '.' :: rest) :
    ∃ name others, segments = .key name :: others ∧ rest = name.toList ++ joinFrom true others := by
  cases segments with
  | nil => cases dotted
  | cons segment segments =>
    cases segment with
    | key name =>
      rw [joinFrom_true_key] at dotted
      exact ⟨name, segments, rfl, (List.cons.inj dotted).2.symm⟩
    | index position =>
      rw [joinFrom_true_index] at dotted
      cases (List.cons.inj dotted).1

theorem joinFrom_eq_bracket {segments : List Segment} {rest : List Char}
    (opened : joinFrom true segments = '[' :: rest) :
    ∃ position others, segments = .index position :: others ∧
      rest = Nat.toDigits 10 position ++ ']' :: joinFrom true others := by
  cases segments with
  | nil => cases opened
  | cons segment segments =>
    cases segment with
    | key name =>
      rw [joinFrom_true_key] at opened
      cases (List.cons.inj opened).1
    | index position =>
      rw [joinFrom_true_index] at opened
      exact ⟨position, segments, rfl, (List.cons.inj opened).2.symm⟩

/-- In tidy steps, a name stands where it is written. -/
theorem eq_of_toList_append {name word : String} {segments : List Segment} {rest : List Char}
    (tidy : (Segment.key name).isTidy) (plain : word.toList.all isStepChar)
    (stop : ∀ c ∈ rest.head?, isStepChar c = false)
    (whole : name.toList ++ joinFrom true segments = word.toList ++ rest) :
    name = word ∧ joinFrom true segments = rest := by
  obtain ⟨same, behind⟩ := append_inj_of_plain (isStepChar_of_isTidy tidy) plain
    (isStepChar_head?_joinFrom segments) stop whole
  exact ⟨String.toList_inj.mp same, behind⟩

theorem payload_of_joinFrom {segments : List Segment} {rest : List Char}
    (tidy : ∀ segment ∈ segments, segment.isTidy)
    (whole : joinFrom true segments = '.' :: ("payload".toList ++ '.' :: rest)) :
    ∃ inner others, segments = .key "payload" :: .key inner :: others ∧
      (join (.key inner :: others)).toList = rest := by
  obtain ⟨name, others, rfl, named⟩ := joinFrom_eq_dot whole
  obtain ⟨rfl, behind⟩ := eq_of_toList_append (tidy _ List.mem_cons_self) (by decide)
    (by simp [isStepChar]) named.symm
  obtain ⟨inner, last, rfl, rfl⟩ := joinFrom_eq_dot behind
  exact ⟨inner, last, rfl, toList_join (tidy _ (List.mem_cons_of_mem _ List.mem_cons_self))⟩

/-- Behind the events, perhaps a position and then the payload. -/
theorem position_of_joinFrom {segments : List Segment} {tail rest : List Char}
    (tidy : ∀ segment ∈ segments, segment.isTidy) (whole : joinFrom true segments = tail)
    (payload : dropIndex tail = '.' :: ("payload".toList ++ '.' :: rest)) :
    ∃ position inner others, segments = position ++ .key "payload" :: .key inner :: others ∧
      position.filterMap Segment.key? = [] ∧ (join (.key inner :: others)).toList = rest := by
  rcases dropIndex_eq tail with same | ⟨digits, decimal, opened⟩
  · obtain ⟨inner, others, rfl, written⟩ :=
      payload_of_joinFrom tidy (whole.trans (same.symm.trans payload))
    exact ⟨[], inner, others, rfl, rfl, written⟩
  · obtain ⟨position, others, rfl, behind⟩ := joinFrom_eq_bracket (whole.trans opened)
    have unclosed : ']' ∉ digits := by
      intro close
      exact absurd (List.all_eq_true.mp decimal _ close) (by decide)
    have cut := breakAt_append_cons unclosed (dropIndex tail)
    rw [behind, breakAt_append_cons (not_mem_toDigits rfl position)] at cut
    obtain ⟨-, after⟩ := Prod.mk.inj (Option.some.inj cut)
    obtain ⟨inner, others, rfl, written⟩ :=
      payload_of_joinFrom (fun segment member => tidy segment (List.mem_cons_of_mem _ member))
        (after.trans payload)
    exact ⟨[.index position], inner, others, rfl, rfl, written⟩

theorem toList_join_events (name : String) :
    (join [.key "steps", .key name, .key "events"]).toList = eventsText name.toList := by
  simp [join, joinFrom, eventsText_eq]

/-- A path into the payload of an event has the steps that it is written with. -/
theorem eventPayload?_join {segments : List Segment} {events rest : String} (tidy : Tidy segments)
    (cut : eventPayload? (join segments) = some (events, rest)) :
    ∃ name position inner others,
      segments = .key "steps" :: .key name :: .key "events" ::
        (position ++ .key "payload" :: .key inner :: others) ∧
      position.filterMap Segment.key? = [] ∧
      events = join [.key "steps", .key name, .key "events"] ∧
      rest = join (.key inner :: others) := by
  obtain ⟨name, tail, full, plain, eventsWritten, whole, payload⟩ :=
    payloadOf?_eq_some (eventPayload?_eq_some cut)
  have stop : ∀ c ∈ tail.head?, isStepChar c = false := by
    intro c first
    rcases dropIndex_eq tail with same | ⟨digits, -, opened⟩
    · rw [← same, payload] at first
      cases first
      decide
    · rw [opened] at first
      cases first
      decide
  obtain ⟨first, others, rfl, -⟩ := tidy.starts
  obtain ⟨firstTidy, laterTidy⟩ := List.forall_mem_cons.mp tidy.all
  rw [toList_join firstTidy, eventsWritten, eventsText_eq, List.append_assoc, List.cons_append,
    List.append_assoc, List.cons_append] at whole
  obtain ⟨rfl, afterSteps⟩ :=
    eq_of_toList_append firstTidy (by decide) (by simp [isStepChar]) whole
  obtain ⟨second, others, rfl, named⟩ := joinFrom_eq_dot afterSteps
  obtain ⟨secondTidy, restTidy⟩ := List.forall_mem_cons.mp laterTidy
  rw [← @String.toList_ofList name] at named
  obtain ⟨rfl, afterName⟩ := eq_of_toList_append secondTidy (by rwa [String.toList_ofList])
    (by simp [isStepChar]) named.symm
  obtain ⟨third, others, rfl, field⟩ := joinFrom_eq_dot afterName
  obtain ⟨thirdTidy, tailTidy⟩ := List.forall_mem_cons.mp restTidy
  obtain ⟨rfl, afterEvents⟩ := eq_of_toList_append thirdTidy (by decide) stop field.symm
  obtain ⟨position, inner, others, rfl, positions, written⟩ :=
    position_of_joinFrom tailTidy afterEvents payload
  refine ⟨String.ofList name, position, inner, others, rfl, positions, ?_, ?_⟩
  · rw [← String.toList_inj, toList_join_events, String.toList_ofList, eventsWritten]
  · rw [← String.toList_inj, written]

end StepPath

namespace Path

/-! ## Faithful paths -/

/-- Steps that are read back wherever example data is made for them: from the path that they are
written as, and from what that path reads from the payload of an event. -/
structure Faithful (segments : List Segment) : Prop extends Tidy segments where
  payload : ∀ events rest, StepPath.eventPayload? (join segments) = some (events, rest) →
    ∀ c ∈ rest.toList.head?, isBlank c = false

/-- Whether a text is a path whose steps are read back wherever example data is made for them. -/
def isFaithful (path : String) : Bool :=
  isTidy path && (StepPath.eventPayload? (normalize path)).all fun (_, rest) =>
    trimStart rest.toList = rest.toList

theorem exists_faithful_of_isFaithful {path : String} (faithful : isFaithful path) :
    ∃ segments, split? path = some segments ∧ Faithful segments := by
  obtain ⟨tidy, payload⟩ := Bool.and_eq_true_iff.mp faithful
  obtain ⟨segments, read, steps⟩ := exists_tidy_of_isTidy tidy
  refine ⟨segments, read, steps, ?_⟩
  intro events rest found
  rw [normalize_of_split? read, found, Option.all_some, decide_eq_true_eq] at payload
  rw [← payload]
  exact head?_trimStart rest.toList

theorem Tidy.of_append {before rest : List Segment} {name : String}
    (tidy : Tidy (before ++ .key name :: rest))
    (dark : ∀ c ∈ name.toList.head?, isBlank c = false) :
    Tidy (.key name :: rest) := by
  refine ⟨⟨name, rest, rfl, dark⟩, fun segment member => ?_, fun other last => ?_⟩
  · exact tidy.all segment (List.mem_append_right _ member)
  · refine tidy.ends other ?_
    rw [List.filterMap_append, List.getLast?_append_of_ne_nil]
    · exact last
    · exact List.cons_ne_nil _ _

/-- What a faithful path reads from the payload of an event is tidy. -/
theorem Faithful.eventPayload? {segments : List Segment} {events rest : String}
    (faithful : Faithful segments)
    (cut : StepPath.eventPayload? (join segments) = some (events, rest)) :
    ∃ name position inner,
      segments = .key "steps" :: .key name :: .key "events" ::
        (position ++ .key "payload" :: inner) ∧
      position.filterMap Segment.key? = [] ∧ Tidy inner ∧
      events = join [.key "steps", .key name, .key "events"] ∧ rest = join inner := by
  have dark := faithful.payload events rest cut
  obtain ⟨name, position, inner, others, rfl, positions, rfl, rfl⟩ :=
    StepPath.eventPayload?_join faithful.toTidy cut
  have innerTidy := faithful.all (.key inner) (by simp)
  rw [toList_join innerTidy, List.head?_append_of_ne_nil _ (toList_ne_nil_of_isTidy innerTidy)]
    at dark
  refine ⟨name, position, .key inner :: others, rfl, positions, ?_, rfl, rfl⟩
  have split : Segment.key "steps" :: .key name :: .key "events" ::
      (position ++ .key "payload" :: .key inner :: others) =
        (.key "steps" :: .key name :: .key "events" :: position ++ [.key "payload"]) ++
          .key inner :: others := by simp
  exact (split ▸ faithful.toTidy).of_append dark

/-- Clean paths are faithful. -/
theorem exists_faithful_of_isClean {path : String} (clean : isClean path) :
    ∃ segments, split? path = some segments ∧ (∀ segment ∈ segments, segment.isClean) ∧
      Faithful segments := by
  obtain ⟨segments, read, clean, tidy⟩ := exists_clean_of_isClean clean
  refine ⟨segments, read, clean, tidy, ?_⟩
  intro events rest found c first
  obtain ⟨name, position, inner, others, rfl, -, -, rfl⟩ := StepPath.eventPayload?_join tidy found
  have member : Segment.key inner ∈ Segment.key "steps" :: .key name :: .key "events" ::
      (position ++ .key "payload" :: .key inner :: others) := by simp
  have innerTidy := tidy.all _ member
  rw [toList_join innerTidy, List.head?_append_of_ne_nil _ (toList_ne_nil_of_isTidy innerTidy)]
    at first
  exact isBlank_of_isClean (clean _ member) c (List.mem_of_mem_head? first)

end Path

end MessageTemplate
