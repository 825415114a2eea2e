import MessageTemplate.Proofs.Analysis.Reference
import MessageTemplate.Proofs.Document.Outputs
import MessageTemplate.Proofs.Preview.Readable
import MessageTemplate.Proofs.Template.Escaped

/-! # Paths of documents in the report

A document is analyzed as the JSON text it has once its attributes are outputs. A path that a node shows
comes out of this text as it went in, but for double quotes around its keys: these are escaped in the
text and stay so in the name that is reported (`analyze_lists_shown`). -/

namespace MessageTemplate

open Text Template Document Analysis

/-- An output of a reference in a JSON text reads the escaped reference first. -/
theorem Analysis.occurrencesInOutput_escape (filters : Filter.Registry) {reference : Reference}
    (bare : reference.isBare = true) (token : Token) :
    ∃ read others, occurrencesInOutput filters
        (String.ofList (markupOf (Json.escape (' ' :: (reference.text ++ [' ']))))) token =
      read :: others ∧ read.name = reference.escape.path ∧
        ∀ schema options, read.counts schema options = true := by
  have none : IsGap [] := by simp [IsGap]
  have stops : StopsAt ['|'] [] := by simp [StopsAt, trimStart]
  have split := splitFilters_around none stops reference.escape
  rw [List.nil_append, List.append_nil] at split
  have full : String.ofList reference.escape.text ≠ "" := by simp [Reference.text]
  obtain ⟨elements, found, -⟩ := occurrencesInOutput_of_path filters token split
    (by simp [full, reference.escape.isLiteral_text]) reference.escape.hasUnquotedBlank_text
  rw [markupOf_escape bare]
  exact ⟨_, _, found, rfl, fun _ _ => rfl⟩

namespace Pipeline

variable {σ : Type} {pipeline : Pipeline σ} {schema : Option Schema} {content : String}
  {session : Session σ}

/-- Where the evaluator accepts every source, the report is that of the analyzer. -/
theorem report_analysisIn
    (accepts : ∀ source state, (pipeline.evaluator.check source state).1 = .ok ()) :
    (pipeline.analysisIn session schema content).report =
      ((pipeline.analyzer schema).analyze (pipeline.analyzedText content)).report := by
  have asked (source : String) (session : Session σ) :
      (pipeline.check source session).1 = .ok () := by
    have answer := accepts source session.evaluator
    change Except.mapError _ (pipeline.evaluator.check source session.evaluator).1 = _
    rw [answer]
    rfl
  have outcome (source : String) :
      ((pipeline.analyzer schema).analyzeChecked pipeline.check source session).1 =
        (pipeline.analyzer schema).analyze source := by
    unfold Analyzer.analyze Analyzer.analyzeChecked
    cases parse source with
    | error fault => rfl
    | ok nodes =>
      obtain ⟨next, given⟩ : ∃ next, pipeline.check source session = (.ok (), next) :=
        ⟨_, Prod.ext (asked source session) rfl⟩
      simp only [bind, StateT.bind, given]
      rfl
  have counted (source : String) : (pipeline.report schema source session).1 =
      ((pipeline.analyzer schema).analyzeChecked pipeline.check source session).1.report := by
    simp only [report, bind, StateT.bind]
    split
    next given =>
    rw [given]
    split <;> rfl
  rw [← outcome]
  exact counted _

/-- The pairs whose attribute is its own flag are those that stay set. -/
theorem not_clears_of_listed {kind : Kind} {phraseNamespace : String} {pair : AttributePair}
    (listed : pair ∈ kind.pairs ++ commonPairs) (own : pair.key = pair.flag) :
    (OutputPolicy.standard phraseNamespace).clears pair.flag = false := by
  have each : ∀ pair ∈ kind.pairs ++ commonPairs, pair.key = pair.flag →
      firstClassFlags.contains pair.flag = true := by
    cases kind <;> decide
  simp only [OutputPolicy.standard, each pair listed own, Bool.not_true]

/-- A path that a node of a document shows is listed as it stands in the text of the document, where
double quotes around its keys are escaped, and so under the name of the path if there are none. -/
theorem analyze_lists_shown {document node : Document.Node} {pair : AttributePair}
    {reference : Reference}
    (accepts : ∀ source state, (pipeline.evaluator.check source state).1 = .ok ())
    (decoded : decodeDocument? content = some document)
    (inert : ∀ text ∈ document.toJson.texts, IsInert text) (inside : document.Holds node)
    (shows : (OutputPolicy.standard pipeline.settings.phraseNamespace).Shows node pair
      (String.ofList reference.text))
    (bare : reference.isBare = true) :
    let report := (pipeline.analysisIn session schema content).report
    reference.escape.path ∈ report.validNames ++ report.invalidNames ∧
      ('"' ∉ reference.text → reference.path ∈ report.validNames ++ report.invalidNames) := by
  have text : pipeline.analyzedText content = (pipeline.withOutputs document).serialize := by
    rw [analyzedText, decoded]
  have full : String.ofList reference.text ≠ "" := by simp [Reference.text]
  have output : outputOf (String.ofList reference.text) ∈
      (pipeline.withOutputs document).toJson.texts :=
    mem_texts_apply inert inside shows full (not_clears_of_listed shows.listed)
  have laid : Laid (pipeline.withOutputs document).serialize.toList
      ((pipeline.withOutputs document).toJson.texts.flatMap Json.insidesOf) := by
    have written := Json.lays_write (pipeline.withOutputs document).toJson
      (isWrapped_apply document inert) .nil
    rw [List.append_nil] at written
    simpa [Document.Node.serialize, Json.text] using written
  have among : Json.escape (' ' :: (reference.text ++ [' '])) ∈
      (pipeline.withOutputs document).toJson.texts.flatMap Json.insidesOf := by
    refine List.mem_flatMap.mpr ⟨_, output, ?_⟩
    rw [Json.insidesOf_output, String.toList_ofList]
    exact List.mem_singleton.mpr rfl
  obtain ⟨nodes, parsed, reads⟩ := exists_parse_of_laid pipeline.filters laid
  obtain ⟨token, before, after, whole⟩ := reads _ among
  obtain ⟨read, others, first, named, counts⟩ :=
    occurrencesInOutput_escape pipeline.filters bare token
  have split : occurrencesInAll pipeline.filters nodes = before ++ read :: (others ++ after) := by
    simp [whole, first]
  have listed : reference.escape.path ∈
      (pipeline.analysisIn session schema content).report.validNames ++
        (pipeline.analysisIn session schema content).report.invalidNames := by
    rw [report_analysisIn accepts, text, (pipeline.analyzer schema).analyze_of_parse parsed, ← named]
    exact (pipeline.analyzer schema).name_mem_of_counts split (counts _ _)
  exact ⟨listed, fun single => reference.escape_eq_self single ▸ listed⟩

/-- A document with a variable that has a path for its name. -/
def variableDocument (path : String) : String :=
  "\x7b\"type\":\"doc\",\"content\":[\x7b\"type\":\"variable\",\"attrs\":\x7b\"id\":\"" ++ path ++
    "\"\x7d\x7d]\x7d"

/-- The variable of a document is listed if its key stands in single quotes. -/
theorem analyze_lists_shown_firstName :
    let report := (accepting.analysisIn ⟨[], .zero⟩ none
      (variableDocument "payload['first name']")).report
    "payload.first name" ∈ report.validNames ++ report.invalidNames := by
  obtain ⟨document, decoded⟩ : ∃ document,
      decodeDocument? (variableDocument "payload['first name']") = some document :=
    Option.isSome_iff_exists.mp (by decide +kernel)
  have inert : (decodeDocument? (variableDocument "payload['first name']")).all
      (fun document => document.toJson.texts.all fun text => IsInert text) = true := by
    decide +kernel
  have told : ((decodeDocument? (variableDocument "payload['first name']")).bind fun document =>
      document.content.bind fun nodes => nodes.head?.bind fun node =>
        some (node.kind, (node.attr? "id").bind Json.string?,
          ["aliasFor", "fallback"].map fun key => node.attrs.bind (nonemptyText? · key))) =
      some ("variable", some "payload['first name']", [none, none]) := by
    decide +kernel
  rw [decoded] at inert told
  rw [Option.bind_some] at told
  obtain ⟨nodes, held, told⟩ := Option.bind_eq_some_iff.mp told
  obtain ⟨node, first, told⟩ := Option.bind_eq_some_iff.mp told
  simp only [Option.some.injEq, Prod.mk.injEq, List.map_cons, List.map_nil, List.cons.injEq,
    and_true] at told
  obtain ⟨kind, read, name, fallback⟩ := told
  obtain ⟨value, given, read⟩ := Option.bind_eq_some_iff.mp read
  obtain rfl : value = .string "payload['first name']" := by
    cases value with
    | string => rw [Option.some.inj read]
    | _ => contradiction
  have shows : (OutputPolicy.standard accepting.settings.phraseNamespace).Shows node ⟨"id", "id"⟩
      (String.ofList firstName.text) := by
    refine ⟨?_, ?_, given, ?_, fun _ => ?_⟩
    · rw [Document.Node.classify, kind]
      decide
    · simp only [given]
      decide
    · rw [kind]
      decide
    · simp only [List.forall_mem_cons]
      exact ⟨name, fallback, List.forall_mem_nil _⟩
  have member : node ∈ nodes := List.mem_of_head? first
  have listed := @analyze_lists_shown _ accepting none _ ⟨[], .zero⟩ document node ⟨"id", "id"⟩
    firstName (fun _ _ => rfl) decoded (by simpa using inert) (.content held member (.self node))
    shows (by decide)
  have path : firstName.path = "payload.first name" := by decide +kernel
  exact path ▸ listed.2 (by decide)

/-- In double quotes the key is reported with the quotes and the backslashes of the JSON text. -/
theorem analyze_misses_doubleQuoted :
    (decodeDocument? (variableDocument "payload[\\\"first name\\\"]")).isSome ∧
      Path.normalize "payload[\"first name\"]" = "payload.first name" ∧
      (accepting.analysisIn ⟨[], .zero⟩ none
        (variableDocument "payload[\\\"first name\\\"]")).report.mentions
          "payload.first name" = false := by
  decide +kernel

end Pipeline

end MessageTemplate
