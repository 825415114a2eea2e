import MessageTemplate.Preview.Pipeline
import MessageTemplate.Proofs.Document.Failing

/-! # What becomes of failures in a preview

Four questions to the evaluator may fail. A template that is refused is a fault in the report, and a
show condition that cannot be evaluated keeps its node; where the content cannot be rendered, the
preview tells why. Only a collection that cannot be resolved leaves no preview. -/

namespace MessageTemplate.Pipeline

open Document

variable {σ : Type}

theorem bind_apply {α β : Type} (first : StateM (Session σ) α) (second : α → StateM (Session σ) β)
    (session : Session σ) :
    (first >>= second) session = second (first session).1 (first session).2 := rfl

/-- The text that is rendered for some content, and the session once it is known: a template itself,
or the text of a document when that has been prepared. -/
def RendersAs (pipeline : Pipeline σ) (data : Json) (content : String) (session : Session σ)
    (source : String) (next : Session σ) : Prop :=
  match decodeDocument? content with
  | none => content = source ∧ session = next
  | some document => ∃ prepared,
      prepare pipeline.evaluator data (pipeline.withOutputs document) session =
        (.ok prepared, next) ∧ prepared.serialize = source

variable {pipeline : Pipeline σ} {schema : Option Schema} {data : Json}
  {content source : String} {session next analyzed : Session σ} {analysis : ContentAnalysis}
  {error : PreviewError} {result : Preview}

/-! ## The text of the content -/

theorem renderedText_apply :
    pipeline.renderedText data content session =
      match decodeDocument? content with
      | none => (.ok content, session)
      | some document =>
        match prepare pipeline.evaluator data (pipeline.withOutputs document) session with
        | (.ok prepared, next) => (.ok prepared.serialize, next)
        | (.error cause, next) => (.error (.preparation cause), next) := by
  unfold renderedText
  cases decodeDocument? content with
  | none => rfl
  | some document =>
    simp only [transform, bind_apply, ExceptT.run]
    rcases prepare pipeline.evaluator data (pipeline.withOutputs document) session with
      ⟨cause | prepared, next⟩
    · rfl
    · rfl

theorem renderedText_eq_ok_iff :
    pipeline.renderedText data content session = (.ok source, next) ↔
      pipeline.RendersAs data content session source next := by
  rw [renderedText_apply, RendersAs]
  cases decodeDocument? content with
  | none =>
    constructor
    · intro given
      cases given
      exact ⟨rfl, rfl⟩
    · rintro ⟨rfl, rfl⟩
      rfl
  | some document =>
    dsimp only
    rcases prepare pipeline.evaluator data (pipeline.withOutputs document) session with
      ⟨cause | prepared, last⟩
    · constructor
      · intro given
        cases given
      · rintro ⟨prepared, given, -⟩
        cases given
    · constructor
      · intro given
        cases given
        exact ⟨prepared, rfl, rfl⟩
      · rintro ⟨other, given, rfl⟩
        cases given
        rfl

/-- There is no text only where a document cannot be prepared. -/
theorem renderedText_eq_error_iff :
    pipeline.renderedText data content session = (.error error, next) ↔
      ∃ document cause, decodeDocument? content = some document ∧
        prepare pipeline.evaluator data (pipeline.withOutputs document) session =
          (.error cause, next) ∧ error = .preparation cause := by
  rw [renderedText_apply]
  cases decodeDocument? content with
  | none =>
    constructor
    · intro given
      cases given
    · rintro ⟨document, cause, decoded, -⟩
      cases decoded
  | some document =>
    dsimp only
    rcases given : prepare pipeline.evaluator data (pipeline.withOutputs document) session with
      ⟨cause | prepared, last⟩
    · constructor
      · intro same
        cases same
        exact ⟨document, cause, rfl, given, rfl⟩
      · rintro ⟨other, failure, decoded, failed, rfl⟩
        cases decoded
        cases given.symm.trans failed
        rfl
    · constructor
      · intro same
        cases same
      · rintro ⟨other, failure, decoded, failed, rfl⟩
        cases decoded
        cases given.symm.trans failed

/-! ## The preview -/

theorem preview_apply (analyzes : pipeline.analyze schema content session = (analysis, analyzed)) :
    pipeline.preview schema content session =
      match pipeline.renderedText (pipeline.previewVariables analysis) content analyzed with
      | (.ok source, prepared) =>
        match pipeline.evaluator.render source (pipeline.previewVariables analysis)
            prepared.evaluator with
        | (.ok rendered, state) =>
          (.ok ⟨analysis.report, analysis.data, rendered, none⟩,
            ⟨state, prepared.counters.count .preview⟩)
        | (.error cause, state) =>
          (.ok ⟨analysis.report, analysis.data, "", some cause.message⟩,
            ⟨state, prepared.counters.count .preview⟩)
      | (.error (.evaluator cause), prepared) =>
          (.ok ⟨analysis.report, analysis.data, "", some cause.message⟩,
            ⟨prepared.evaluator, prepared.counters.count .preview⟩)
      | (.error error, prepared) => (.error error, prepared) := by
  simp only [preview, render, bind_apply, analyzes]
  rcases pipeline.renderedText (pipeline.previewVariables analysis) content analyzed with
    ⟨error | source, prepared⟩
  · cases error <;> rfl
  · simp only [bind_apply, Session.ask]
    rcases pipeline.evaluator.render source (pipeline.previewVariables analysis) prepared.evaluator
      with ⟨cause | rendered, state⟩
    · rfl
    · rfl

theorem preview_of_text (analyzes : pipeline.analyze schema content session = (analysis, analyzed))
    (text : pipeline.renderedText (pipeline.previewVariables analysis) content analyzed =
      (.ok source, next)) :
    pipeline.preview schema content session =
      match pipeline.evaluator.render source (pipeline.previewVariables analysis) next.evaluator with
      | (.ok rendered, state) =>
        (.ok ⟨analysis.report, analysis.data, rendered, none⟩, ⟨state, next.counters.count .preview⟩)
      | (.error cause, state) =>
        (.ok ⟨analysis.report, analysis.data, "", some cause.message⟩,
          ⟨state, next.counters.count .preview⟩) := by
  rw [preview_apply analyzes, text]

theorem preview_of_no_text
    (analyzes : pipeline.analyze schema content session = (analysis, analyzed))
    (failed : pipeline.renderedText (pipeline.previewVariables analysis) content analyzed =
      (.error error, next)) :
    pipeline.preview schema content session = (.error error, next) := by
  obtain ⟨document, cause, -, -, rfl⟩ := renderedText_eq_error_iff.mp failed
  rw [preview_apply analyzes, failed]

/-- There is no preview exactly if there is no text of the content to be rendered. -/
theorem preview_eq_error_iff
    (analyzes : pipeline.analyze schema content session = (analysis, analyzed)) :
    pipeline.preview schema content session = (.error error, next) ↔
      pipeline.renderedText (pipeline.previewVariables analysis) content analyzed =
        (.error error, next) := by
  refine ⟨fun failed => ?_, preview_of_no_text analyzes⟩
  rcases text : pipeline.renderedText (pipeline.previewVariables analysis) content analyzed with
    ⟨failure | source, prepared⟩
  · cases failed.symm.trans (preview_of_no_text analyzes text)
    rfl
  · rw [preview_of_text analyzes text] at failed
    split at failed
    · cases failed
    · cases failed

/-- A preview is the analysis, with what the text of the content is rendered to or with the message
of the evaluator. -/
theorem preview_eq_ok_iff
    (analyzes : pipeline.analyze schema content session = (analysis, analyzed)) :
    pipeline.preview schema content session = (.ok result, next) ↔
      ∃ source prepared, pipeline.renderedText (pipeline.previewVariables analysis) content analyzed =
          (.ok source, prepared) ∧
        match pipeline.evaluator.render source (pipeline.previewVariables analysis)
            prepared.evaluator with
        | (.ok rendered, state) =>
          result = ⟨analysis.report, analysis.data, rendered, none⟩ ∧
            next = ⟨state, prepared.counters.count .preview⟩
        | (.error cause, state) =>
          result = ⟨analysis.report, analysis.data, "", some cause.message⟩ ∧
            next = ⟨state, prepared.counters.count .preview⟩ := by
  constructor
  · intro given
    rcases text : pipeline.renderedText (pipeline.previewVariables analysis) content analyzed with
      ⟨failure | source, prepared⟩
    · cases given.symm.trans (preview_of_no_text analyzes text)
    · refine ⟨source, prepared, rfl, ?_⟩
      rw [preview_of_text analyzes text] at given
      split at given
      · cases given
        exact ⟨rfl, rfl⟩
      · cases given
        exact ⟨rfl, rfl⟩
  · rintro ⟨source, prepared, text, answered⟩
    rw [preview_of_text analyzes text]
    split at answered
    · obtain ⟨rfl, rfl⟩ := answered
      rfl
    · obtain ⟨rfl, rfl⟩ := answered
      rfl

theorem previewOrEmpty_apply :
    pipeline.previewOrEmpty schema content session =
      match pipeline.preview schema content session with
      | (.ok result, next) => (result, next)
      | (.error _, next) => (.empty, next) := by
  simp only [previewOrEmpty, bind_apply]
  rcases pipeline.preview schema content session with ⟨error | result, next⟩
  · rfl
  · rfl

/-- There is no preview exactly if the content is a document and a collection of it cannot be
resolved against the example data with stand-ins for the invalid variables. Otherwise the preview is
the analysis, with what the content is rendered to or with the message of the evaluator. -/
theorem preview_fails_iff_unresolved (pipeline : Pipeline σ) (schema : Option Schema)
    (content : String) (session : Session σ) :
    let analysis := (pipeline.analyze schema content session).1
    let analyzed := (pipeline.analyze schema content session).2
    let data := pipeline.builder.withStandIns analysis.data analysis.report.invalidNames
    (∀ error next, pipeline.preview schema content session = (.error error, next) ↔
      ∃ document expression cause, decodeDocument? content = some document ∧
        prepare pipeline.evaluator data (pipeline.withOutputs document) analyzed =
          (.error (.collection expression cause), next) ∧
        (∃ state after, pipeline.evaluator.resolveCollection expression data state =
          (.error cause, after)) ∧
        error = .preparation (.collection expression cause)) ∧
    (∀ result next, pipeline.preview schema content session = (.ok result, next) ↔
      ∃ source prepared, pipeline.RendersAs data content analyzed source prepared ∧
        match pipeline.evaluator.render source data prepared.evaluator with
        | (.ok rendered, state) =>
          result = ⟨analysis.report, analysis.data, rendered, none⟩ ∧
            next = ⟨state, prepared.counters.count .preview⟩
        | (.error cause, state) =>
          result = ⟨analysis.report, analysis.data, "", some cause.message⟩ ∧
            next = ⟨state, prepared.counters.count .preview⟩) ∧
    (∀ result next, pipeline.preview schema content session = (.ok result, next) →
      pipeline.previewOrEmpty schema content session = (result, next)) ∧
    ∀ error next, pipeline.preview schema content session = (.error error, next) →
      pipeline.previewOrEmpty schema content session = (.empty, next) := by
  intro analysis analyzed data
  have analyzes : pipeline.analyze schema content session = (analysis, analyzed) := rfl
  refine ⟨fun error next => ?_, fun result next => ?_, fun result next given => ?_,
    fun error next given => ?_⟩
  · rw [preview_eq_error_iff analyzes, renderedText_eq_error_iff]
    constructor
    · rintro ⟨document, failure, decoded, failed, rfl⟩
      obtain ⟨expression, cause, state, after, rfl, unresolved⟩ :=
        failsOnly_prepare _ _ _ _ _ _ failed
      exact ⟨document, expression, cause, decoded, failed, ⟨state, after, unresolved⟩, rfl⟩
    · rintro ⟨document, expression, cause, decoded, failed, -, rfl⟩
      exact ⟨document, .collection expression cause, decoded, failed, rfl⟩
  · simp only [preview_eq_ok_iff analyzes, renderedText_eq_ok_iff]
    rfl
  · rw [previewOrEmpty_apply, given]
  · rw [previewOrEmpty_apply, given]

end MessageTemplate.Pipeline
