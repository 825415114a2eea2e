import MessageTemplate.Preview.Pipeline
import MessageTemplate.Proofs.Example.Collections

/-! # Valid variables and example data

Example data is made for the valid variables of some content. Which names are valid is decided apart
from which names data is made for: only for those with a namespace, and only under the names that
the path is read back as. Valid variables can be read from the data as far as the two agree. -/

namespace MessageTemplate.Pipeline

open Json

variable {σ : Type} {pipeline : Pipeline σ} {schema : Option Schema} {content name : String}
  {session : Session σ}

/-- What the analysis of some content finds in a session. -/
def analysisIn (pipeline : Pipeline σ) (session : Session σ) (schema : Option Schema)
    (content : String) : ContentAnalysis :=
  ((pipeline.analyze schema content).run session).1

/-- For a template, example data is made for the valid variables and nothing else. -/
theorem data_analysisIn (text : decodeDocument? content = none) :
    (pipeline.analysisIn session schema content).data =
      pipeline.builder.build
        (pipeline.analysisIn session schema content).report.validNames [] [] := by
  have told : pipeline.hints content = .empty := by rw [hints, text]
  rw [analysisIn, analyze, told]
  rfl

/-- A valid variable of a template leads to values in all branches of the example data, and there is
one. Its name has a namespace or needs none, it is read back where data is made for it, and no valid
name that is no path stands in for what leads on from it. -/
theorem analyze_reads_validNames {segments : List Segment} (text : decodeDocument? content = none)
    (limit : 1 ≤ pipeline.settings.maxIterations) (events : 1 ≤ pipeline.settings.digestEvents)
    (valid : name ∈ (pipeline.analysisIn session schema content).report.validNames)
    (read : Path.split? name = some segments)
    (named : pipeline.builder.isNamespaced (Path.normalize name))
    (faithful : Path.isFaithful name)
    (free : ¬ pipeline.builder.isBlocked
      (pipeline.analysisIn session schema content).report.validNames name) :
    EveryBranch (fun _ => True) (segments.filterMap Segment.key?)
        (pipeline.analysisIn session schema content).data ∧
      SomeBranch (segments.filterMap Segment.key?)
        (pipeline.analysisIn session schema content).data := by
  obtain ⟨steps, same, faithful⟩ := Path.exists_faithful_of_isFaithful faithful
  cases read.symm.trans same
  rw [data_analysisIn text]
  generalize (pipeline.analysisIn session schema content).report.validNames = names at valid free
  rw [← List.append_nil names] at valid free
  have every := @Example.Builder.everyBranch_build pipeline.builder names [] [] name segments valid
    read faithful named free
  have full : Full (pipeline.builder.build names [] []) :=
    Example.Builder.full_build (fun _ member => nomatch member) limit events
  exact ⟨every, every.someBranch full⟩

/-- The usual pipeline, with an evaluator that accepts everything. -/
def accepting : Pipeline (List String) := .ofEvaluator (.scripted .ok) .standard ""

/-- Both elements of a collection that a position implies have the name that is read from it. -/
theorem analyze_reads_name_of_items :
    EveryBranch (fun _ => True) ["payload", "items", "name"]
        (accepting.analysisIn ⟨[], .zero⟩ none
          "\x7b\x7b payload.items[1].name \x7d\x7d").data ∧
      SomeBranch ["payload", "items", "name"]
        (accepting.analysisIn ⟨[], .zero⟩ none
          "\x7b\x7b payload.items[1].name \x7d\x7d").data :=
  @analyze_reads_validNames _ accepting none _ "payload.items[1].name" ⟨[], .zero⟩
    [.key "payload", .key "items", .index 1, .key "name"] (by decide +kernel) (by decide)
    (by decide) (by decide +kernel) (by decide +kernel) (by decide +kernel) (by decide +kernel)
    (by decide +kernel)

/-- A valid variable of a template is a path, but cannot be read from the example data. -/
def Misses (schema : Option Schema) (content name : String) : Prop :=
  decodeDocument? content = none ∧
    name ∈ (accepting.analysisIn ⟨[], .zero⟩ schema content).report.validNames ∧
    ∃ keys ∈ Path.keys? name,
      ¬ EveryBranch (fun _ => True) keys (accepting.analysisIn ⟨[], .zero⟩ schema content).data

instance (schema : Option Schema) (content name : String) :
    Decidable (Misses schema content name) :=
  inferInstanceAs (Decidable (_ ∧ _ ∧ _))

/-- Each of the conditions on a name is needed. The first name has no namespace, though a schema
declares it; the next ones are not read back; and the last one is left out for the other one. -/
theorem analyze_misses_validNames :
    Misses (some ⟨.object, [("items", ⟨.array, [], some (.leaf .string), false⟩)], none, false⟩)
        "\x7b\x7b items[0] \x7d\x7d" "items[0]" ∧
      Misses none "\x7b\x7b payload['b['][0] \x7d\x7d" "payload.b[[0]" ∧
      Misses none "\x7b\x7b payload['b '][0] \x7d\x7d" "payload.b [0]" ∧
      Misses none "\x7b\x7b steps.d.events[0].payload[' x'] \x7d\x7d"
        "steps.d.events[0].payload. x" ∧
      Misses none "\x7b\x7b t.a \x7d\x7d\x7b\x7b t['a[b'] \x7d\x7d" "t.a" := by
  decide +kernel

end MessageTemplate.Pipeline
