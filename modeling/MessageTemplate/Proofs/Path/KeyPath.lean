import MessageTemplate.Engine.Sentence
import MessageTemplate.Proofs.Path.Steps
import MessageTemplate.Proofs.Template.Reference

/-! # Key paths behind the events of a step

A filter reads a chain of names from each event of a digest step. The path of the events, and the
chain behind it, is a path whose steps are these names: it is read back as they are, also from the
payload of an event. -/

namespace MessageTemplate.Path

open Text StepPath Engine Template

/-! ## Names -/

theorem isCleanChar_of_isNameChar {c : Char} (named : isNameChar c = true) :
    Segment.isCleanChar c = true := by
  have dark : isBlank c = false := by
    by_contra blank
    rw [(not_word_of_isBlank (by simpa using blank)).2] at named
    contradiction
  have differs : ∀ mark, isNameChar mark = false → c ≠ mark := by
    rintro mark other rfl
    rw [named] at other
    contradiction
  have dot := differs '.' (by decide)
  have opened := differs '[' (by decide)
  have closed := differs ']' (by decide)
  simp [Segment.isCleanChar, dark, dot, opened, closed]

theorem isNameChar_of_isNameStart {c : Char} (starts : isNameStart c = true) :
    isNameChar c = true := by
  rcases Bool.or_eq_true_iff.mp starts with letter | underscore
  · have plain : c.isAlphanum = true := by simp [Char.isAlphanum, letter]
    simp [isNameChar, isWordChar, toNat_lt_of_isAlphanum plain, plain]
  · rw [eq_of_beq underscore]
    decide

/-- A name can be written as it is. -/
theorem isClean_of_isName {name : String} (named : isName name.toList) :
    (Segment.key name).isClean := by
  refine Bool.and_eq_true_iff.mpr ⟨decide_eq_true ?_, List.all_eq_true.mpr ?_⟩
  · rintro rfl
    contradiction
  · cases whole : name.toList with
    | nil => exact List.forall_mem_nil _
    | cons c rest =>
      rw [whole] at named
      obtain ⟨starts, later⟩ := Bool.and_eq_true_iff.mp named
      rw [List.forall_mem_cons]
      exact ⟨isCleanChar_of_isNameChar (isNameChar_of_isNameStart starts), fun other member =>
        isCleanChar_of_isNameChar (List.all_eq_true.mp later other member)⟩

/-! ## Key paths -/

theorem isName_of_mem_keyPathKeys {path key : String} (chain : isNameChain path)
    (member : key ∈ keyPathKeys path) : isName key.toList := by
  obtain ⟨part, present, rfl⟩ := List.mem_map.mp member
  rw [String.toList_ofList]
  exact List.all_eq_true.mp chain part present

/-- The keys of a key path are written as it is. -/
theorem joinFrom_keyPathKeys (path : String) :
    joinFrom true ((keyPathKeys path).map Segment.key) = '.' :: path.toList := by
  rw [keyPathKeys]
  induction path.toList using dotted_induction with
  | single text plain =>
    simp [List.splitOn_eq_singleton plain, joinFrom]
  | more left right plain ih =>
    rw [List.splitOn_append_cons_self, List.splitOn_eq_singleton plain]
    simp only [List.cons_append, List.nil_append, List.map_cons, joinFrom_true_key, ih,
      String.toList_ofList]

theorem keyPathKeys_ne_nil (path : String) : keyPathKeys path ≠ [] := by
  intro empty
  have := joinFrom_keyPathKeys path
  rw [empty] at this
  cases this

/-- The steps of a chain of names behind the events of a step. -/
def eventSteps (step : String) (keys : List String) : List Segment :=
  .key "steps" :: .key step :: .key "events" :: keys.map .key

theorem filterMap_key?_eventSteps (step : String) (keys : List String) :
    (eventSteps step keys).filterMap Segment.key? = ["steps", step, "events"] ++ keys := by
  have named : Segment.key? ∘ Segment.key = some := rfl
  simp [eventSteps, Segment.key?, List.filterMap_map, named]

theorem join_eventSteps (step path : String) :
    join (eventSteps step (keyPathKeys path)) = "steps." ++ step ++ ".events." ++ path := by
  rw [← String.toList_inj, eventSteps, toList_join (by decide)]
  simp [joinFrom_true_key, joinFrom_keyPathKeys]

theorem join_events (step : String) :
    join (eventSteps step []) = "steps." ++ step ++ ".events" := by
  rw [← String.toList_inj, eventSteps, toList_join (by decide)]
  simp [joinFrom]

theorem isTidy_of_isEvents {step : String} (events : isEvents (join (eventSteps step []))) :
    (Segment.key step).isTidy := by
  obtain ⟨name, full, plain, whole⟩ := isEvents_eq_true events
  have same : step.toList = name := by
    have : "steps.".toList ++ (step.toList ++ ".events".toList) =
        "steps.".toList ++ (name ++ ".events".toList) := by
      simpa [join_events, eventsText_eq] using whole
    exact List.append_cancel_right (List.append_cancel_left this)
  subst same
  exact Bool.and_eq_true_iff.mpr
    ⟨decide_eq_true fun empty => full (String.toList_eq_nil_iff.mpr empty), plain⟩

section EventSteps

variable {step : String} {keys : List String} (tidy : (Segment.key step).isTidy)
  (clean : ∀ key ∈ keys, (Segment.key key).isClean)

include tidy clean

theorem tidy_eventSteps : Tidy (eventSteps step keys) := by
  refine ⟨⟨"steps", _, rfl, fun c first => ?_⟩, ?_, ?_⟩
  · cases first
    decide
  · simp only [eventSteps, List.forall_mem_cons, List.forall_mem_map]
    exact ⟨by decide, tidy, by decide, fun key member => isTidy_key_of_isClean (clean key member)⟩
  · have cleanEnd : ∀ key ∈ "events" :: keys, (Segment.key key).isClean :=
      List.forall_mem_cons.mpr ⟨by decide, clean⟩
    have split : ["steps", step, "events"] ++ keys = ["steps", step] ++ "events" :: keys := rfl
    intro last final c ends
    rw [filterMap_key?_eventSteps, split,
      List.getLast?_append_of_ne_nil _ (List.cons_ne_nil _ _)] at final
    exact isBlank_of_isClean (cleanEnd last (List.mem_of_mem_getLast? final)) c
      (List.mem_of_mem_getLast? ends)

/-- A chain of names behind the events of a step is read back, also from the payload of an event. -/
theorem faithful_eventSteps : Faithful (eventSteps step keys) := by
  have steps := tidy_eventSteps tidy clean
  refine ⟨steps, fun events rest found c first => ?_⟩
  obtain ⟨name, position, inner, others, same, -, -, rfl⟩ := eventPayload?_join steps found
  have member : Segment.key inner ∈ keys.map Segment.key := by
    simp only [eventSteps, List.cons.injEq] at same
    rw [same.2.2.2]
    simp
  obtain ⟨key, present, here⟩ := List.mem_map.mp member
  cases here
  have named := isTidy_key_of_isClean (clean inner present)
  rw [toList_join named, List.head?_append_of_ne_nil _ (toList_ne_nil_of_isTidy named)] at first
  exact isBlank_of_isClean (clean inner present) c (List.mem_of_mem_head? first)

end EventSteps

end MessageTemplate.Path
