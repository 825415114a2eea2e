import MessageTemplate.Decimal.Layout
import MessageTemplate.Metrics.Counters

/-! # Metrics as text

Counts are published as families of samples. A family has a name, a line of help and a type; a
sample is a line with a name, labels and a count. The durations of previews are published as a
histogram: each bucket counts the durations up to its bound. -/

namespace MessageTemplate.Metrics

/-- The two types of families. -/
inductive FamilyType where
  | counter
  | histogram
  deriving DecidableEq, Repr

/-- The name of a type. -/
def FamilyType.name : FamilyType → String
  | counter => "counter"
  | histogram => "histogram"

/-- A family of samples. -/
structure Family where
  name : String
  help : String
  type : FamilyType
  deriving DecidableEq, Repr

namespace Family

/-- The lines that introduce a family. -/
def header (family : Family) : List String :=
  ["# HELP " ++ family.name ++ " " ++ family.help,
    "# TYPE " ++ family.name ++ " " ++ family.type.name]

/-- Show conditions that could not be evaluated. -/
def conditionFailures : Family :=
  ⟨"preview_condition_failures_total", "Total show conditions that failed to evaluate", .counter⟩

/-- Hidden nodes. -/
def hiddenNodes : Family :=
  ⟨"preview_hidden_nodes_total", "Total nodes pruned by show conditions", .counter⟩

/-- The durations of previews. -/
def durations : Family :=
  ⟨"preview_pipeline_duration_seconds", "Preview pipeline duration in seconds", .histogram⟩

/-- Repeated nodes. -/
def expansions : Family :=
  ⟨"preview_repeat_expansions_total", "Total repeat nodes expanded", .counter⟩

/-- Templates that could not be read. -/
def syntaxErrors : Family :=
  ⟨"preview_syntax_errors_total", "Total templates that failed to parse", .counter⟩

/-- Variables by validity. -/
def found : Family :=
  ⟨"preview_variables_total", "Total template variables discovered", .counter⟩

/-- All families in the order of their names. -/
def all : List Family :=
  [conditionFailures, hiddenNodes, durations, expansions, syntaxErrors, found]

end Family

/-- A line with a name, labels and a count. -/
structure Sample where
  name : String
  labels : List (String × String)
  count : Nat
  deriving DecidableEq, Repr

/-- The labels of a sample as they are written. -/
def writeLabels (labels : List (String × String)) : String :=
  if labels.isEmpty then ""
  else
    "\x7b" ++ ",".intercalate (labels.map fun (name, value) => name ++ "=\"" ++ value ++ "\"")
      ++ "\x7d"

/-- What a sample is known by. -/
def Sample.key (sample : Sample) : String := sample.name ++ writeLabels sample.labels

/-- The samples that an event adds to. -/
def samplesOf : Event → List Sample
  | .found valid invalid =>
    [⟨Family.found.name, [("validity", "invalid")], invalid⟩,
      ⟨Family.found.name, [("validity", "valid")], valid⟩]
  | .syntaxError => [⟨Family.syntaxErrors.name, [], 1⟩]
  | .expansion => [⟨Family.expansions.name, [], 1⟩]
  | .hidden => [⟨Family.hiddenNodes.name, [], 1⟩]
  | .conditionFailure => [⟨Family.conditionFailures.name, [], 1⟩]
  | .preview => [⟨Family.durations.name ++ "_count", [], 1⟩]

/-- The bounds of the buckets in seconds. A last bucket has no bound. -/
def bucketBounds : List Float := [0.0005, 0.001, 0.005, 0.01, 0.05, 0.1, 0.5]

/-- The sample of a bucket. -/
def bucket (bound : String) : Sample := ⟨Family.durations.name ++ "_bucket", [("le", bound)], 1⟩

/-- The samples that a preview of some duration adds to. -/
def samplesOfDuration (seconds : Float) : List Sample :=
  (bucketBounds.filter (seconds ≤ ·)).map (fun bound => bucket (Decimal.plain.write bound)) ++
    bucket "+Inf" :: samplesOf .preview

end MessageTemplate.Metrics
