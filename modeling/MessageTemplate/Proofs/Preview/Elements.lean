import MessageTemplate.Proofs.Example.Arrays
import MessageTemplate.Proofs.Preview.Readable

/-! # Names of events in example data

A filter that makes a sentence of the events of a digest step reads a chain of names from each of
them, and the analysis lists what it reads as a name of its own. Example data is made for that name
like for any other one, but the filter reads it differently: it follows the names through objects
alone. Both agree unless a position in another name makes an array on the way. -/

namespace MessageTemplate.Pipeline

open Engine

variable {σ : Type} {pipeline : Pipeline σ} {schema : Option Schema} {content : String}
  {session : Session σ}

theorem isNameChain_of_keyPath? {call : Template.FilterCall} {path : String}
    (reads : Analysis.keyPath? call = some path) : StepPath.isNameChain path := by
  obtain ⟨position, -, reads⟩ := Option.bind_eq_some_iff.mp reads
  obtain ⟨argument, -, reads⟩ := Option.bind_eq_some_iff.mp reads
  obtain ⟨text, -, reads⟩ := Option.bind_eq_some_iff.mp reads
  obtain ⟨chain, same⟩ := Option.ite_none_right_eq_some.mp reads
  cases same
  exact chain

/-- What a filter reads from the events of a step, as far as it is a valid variable of a template,
is read from each of them in the example data, and is not null. It is part of the payload, or no
position in a valid variable implies a collection on the way there, and no valid name that is no
path stands in for what leads on from it. If the events themselves are a valid variable, they are
there. -/
theorem analyze_reads_elements {step path : String} {call : Template.FilterCall}
    (text : decodeDocument? content = none)
    (isEvents : StepPath.isEvents ("steps." ++ step ++ ".events"))
    (reads : Analysis.keyPath? call = some path)
    (valid : "steps." ++ step ++ ".events." ++ path ∈
      (pipeline.analysisIn session schema content).report.validNames)
    (free : ¬ pipeline.builder.isBlocked
      (pipeline.analysisIn session schema content).report.validNames
      ("steps." ++ step ++ ".events." ++ path))
    (flat : Example.isDigest ("steps." ++ step ++ ".events." ++ path) ∨
      ∀ count < (keyPathKeys path).length, 0 < count →
        ¬ pipeline.builder.isCollection []
          (pipeline.analysisIn session schema content).report.validNames
          (["steps", step, "events"] ++ (keyPathKeys path).take count)) :
    ("steps." ++ step ++ ".events" ∈
        (pipeline.analysisIn session schema content).report.validNames →
      ∃ events, follow? (pipeline.analysisIn session schema content).data
        ["steps", step, "events"] = some events) ∧
    ∀ events, follow? (pipeline.analysisIn session schema content).data
        ["steps", step, "events"] = some events →
      ∀ element ∈ elementsOf events,
        ∃ found, follow? element (keyPathKeys path) = some found ∧ found ≠ .null := by
  rw [data_analysisIn text]
  generalize (pipeline.analysisIn session schema content).report.validNames = names
    at valid free flat
  have chain := isNameChain_of_keyPath? reads
  have clean : ∀ key ∈ keyPathKeys path, (Segment.key key).isClean :=
    fun key member => Path.isClean_of_isName (Path.isName_of_mem_keyPathKeys chain member)
  rw [← Path.join_events] at isEvents ⊢
  rw [← Path.join_eventSteps] at valid free flat
  rw [← List.append_nil names] at valid free flat
  refine ⟨fun listed => ?_, fun events followed element member => ?_⟩
  · rw [← List.append_nil names] at listed
    exact Example.Builder.exists_follow?_events isEvents listed
  · exact Example.Builder.exists_follow?_of_mem_elementsOf isEvents clean
      (Path.keyPathKeys_ne_nil path) valid free flat followed member

/-- A schema of objects with any properties. -/
def anything : Schema := ⟨.object, [], none, true⟩

/-- A template that reads names from all events of a step, and from one of them. -/
def readsEvents : String :=
  "\x7b\x7b steps.d.events | toSentence: 'a.b' \x7d\x7d\x7b\x7b steps.d.events[1].a.c \x7d\x7d"

/-- A position of the events themselves does not keep a filter from what it reads behind them. -/
theorem analyze_reads_elements_of_position :
    ∃ events, follow? (accepting.analysisIn ⟨[], .zero⟩ (some anything) readsEvents).data
        ["steps", "d", "events"] = some events ∧
      ∀ element ∈ elementsOf events,
        ∃ found, follow? element (keyPathKeys "a.b") = some found ∧ found ≠ .null := by
  have names : (accepting.analysisIn ⟨[], .zero⟩ (some anything) readsEvents).report.validNames =
      ["steps.d.events", "steps.d.events.a.b", "steps.d.events[1].a.c"] := by
    decide +kernel
  obtain ⟨there, all⟩ := @analyze_reads_elements _ accepting (some anything) readsEvents
    ⟨[], .zero⟩ "d" "a.b" ⟨"toSentence", [.text "a.b"]⟩ (by decide +kernel) (by decide +kernel)
    (by decide +kernel) (by rw [names]; decide +kernel) (by rw [names]; decide +kernel)
    (by rw [names]; decide +kernel)
  obtain ⟨events, followed⟩ := there (by rw [names]; decide +kernel)
  exact ⟨events, followed, all events followed⟩

/-- What a filter reads from the events of a step is a valid variable of a template, but there is an
event that it cannot be read from. -/
def MissesElement (schema : Option Schema) (content step path : String) : Prop :=
  decodeDocument? content = none ∧
    (∃ found ∈ (accepting.analysisIn ⟨[], .zero⟩ schema content).report.valid,
      found.name = "steps." ++ step ++ ".events." ++ path ∧ found.context = some "toSentence") ∧
    ∃ events ∈ follow? (accepting.analysisIn ⟨[], .zero⟩ schema content).data
        ["steps", step, "events"],
      ∃ element ∈ elementsOf events, (follow? element (keyPathKeys path)).isNone

instance (schema : Option Schema) (content step path : String) :
    Decidable (MissesElement schema content step path) :=
  inferInstanceAs (Decidable (_ ∧ _ ∧ _))

/-- Both conditions are needed. A position makes an array of what leads to the first name, and the
second one is left out for a name that is no path. -/
theorem analyze_misses_elements :
    MissesElement (some anything)
        ("\x7b\x7b steps.d.events | toSentence: 'foo.bar' \x7d\x7d" ++
          "\x7b\x7b steps.d.events.foo[1].bar \x7d\x7d")
        "d" "foo.bar" ∧
      MissesElement (some anything)
        ("\x7b\x7b steps.d.events | toSentence: 'foo' \x7d\x7d" ++
          "\x7b\x7b steps.d.events.foo[\"b[x\"][0] \x7d\x7d")
        "d" "foo" := by
  decide +kernel

end MessageTemplate.Pipeline
