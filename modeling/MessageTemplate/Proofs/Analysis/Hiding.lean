import MessageTemplate.Filter.Rules
import MessageTemplate.Proofs.Analysis.Everywhere
import MessageTemplate.Proofs.Analysis.Occurrence
import MessageTemplate.Proofs.Path.Prefix

/-! # Hiding names

If more names are bound around a template, then the analysis leaves out the variables that they bind and
reports all others as before (`analyzeNodes_bindAll`). An occurrence of one of these names is dropped,
and so are all other occurrences of that name; what filters read from the elements of a collection has
the collection for a strict prefix, so that it goes whenever the collection does. Outputs whose base
holds blanks are left out of account, since no name binds them. -/

namespace MessageTemplate.Analysis

open Template

/-! ## Binding more names around an occurrence -/

/-- Whether the base of an output is no literal and has a blank character outside of quotes. -/
def hasBlankBase (expression : String) : Bool :=
  let base := (splitFilters expression).1
  !isLiteral base && hasUnquotedBlank base

theorem Scope.Binds.foldl {scope : Scope} {binders : List String} (same : scope.Binds binders)
    (names : List String) : (names.foldl Scope.bind scope).Binds (binders ++ names) := by
  induction names generalizing scope binders with
  | nil => simpa using same
  | cons name rest ih => simpa using ih (same.bind name)

namespace Occurrence

variable {schema : Option Schema} {options : Options} {names : List String} {found : Occurrence}

theorem bindsPath_append (outer inner : List String) (path : String) :
    bindsPath (outer ++ inner) path = (bindsPath outer path || bindsPath inner path) :=
  List.any_append

/-- What binds a collection binds what is read from its elements. -/
theorem bindsPath_element {events : String} (bound : bindsPath names events = true)
    (path : String) : bindsPath names (events ++ "." ++ path) = true := by
  have below : Path.isStrictPrefix events (events ++ "." ++ path) = true :=
    Path.isStrictPrefix_iff.mpr ⟨path.toList, .inl (by simp)⟩
  obtain ⟨name, member, binds⟩ := List.any_eq_true.mp bound
  refine List.any_eq_true.mpr ⟨name, member, ?_⟩
  rw [Bool.or_eq_true, decide_eq_true_eq] at binds ⊢
  rcases binds with rfl | leads
  · exact .inr below
  · exact .inr (Path.isStrictPrefix_trans leads below)

/-- A name without blanks, which leads on from the collection that it is read from if there is one. -/
structure IsPlain (found : Occurrence) : Prop where
  solid : found.hasBlank = false
  below : ∀ events ∈ found.collection, ∃ path, found.name = events ++ "." ++ path

theorem isCommon_isPlain (token : Token) : IsCommon token IsPlain where
  within _ _ := ⟨rfl, fun _ absent => nomatch absent⟩
  under _ _ plain := ⟨plain.solid, plain.below⟩

/-- With more names bound, those occurrences count that have counted, unless one of the names binds
them. -/
theorem IsPlain.counts_under (plain : found.IsPlain) :
    ((found.under names).isFounded schema options && !(found.under names).isBound) =
      (found.isFounded schema options && !found.isBound && !bindsPath names found.name) := by
  have solid := plain.solid
  cases bound : bindsPath names found.name with
  | true => simp [isBound, under, bindsPath_append, solid, bound]
  | false =>
    cases read : found.collection with
    | none => simp [isFounded, isBound, under, bindsPath_append, solid, bound, read]
    | some events =>
      have free : bindsPath names events = false := by
        obtain ⟨path, name⟩ := plain.below events read
        cases binds : bindsPath names events with
        | true => rw [name, bindsPath_element binds] at bound; contradiction
        | false => rfl
      simp [isFounded, isBound, under, bindsPath_append, solid, bound, read, free]

/-- In an output without blanks in its base no name has blanks. -/
theorem forall_isPlain {filters : Filter.Registry} {expression : String}
    (solid : hasBlankBase expression = false) (token : Token) :
    ∀ one ∈ occurrencesInOutput filters expression token, one.IsPlain := by
  have arguments := (isCommon_isPlain token).forall_arguments
  rw [hasBlankBase, Bool.and_eq_false_iff, Bool.not_eq_false'] at solid
  unfold occurrencesInOutput
  split
  next base calls split =>
  rw [split] at solid
  split
  · exact arguments calls
  · next read =>
    rw [Bool.or_eq_true, not_or] at read
    rw [if_neg (by rw [Bool.not_eq_true]; exact solid.resolve_left read.2)]
    refine List.forall_mem_append.mpr ⟨List.forall_mem_cons.mpr ⟨?_, arguments calls⟩, ?_⟩
    · exact ⟨rfl, fun _ absent => nomatch absent⟩
    split
    · intro one member
      obtain ⟨call, -, inside⟩ := List.mem_filterMap.mp member
      obtain ⟨path, -, rfl⟩ := Option.map_eq_some_iff.mp inside
      refine ⟨rfl, fun events read => ⟨path, ?_⟩⟩
      rw [Option.mem_def, Option.some.injEq] at read
      rw [read]
    · simp

theorem firsts_map_under (found : List Occurrence) (names : List String) :
    firsts (found.map (.under names)) = (firsts found).map (.under names) := by
  induction found with
  | nil => rfl
  | cons first rest ih =>
    rw [List.map_cons, firsts, firsts, List.map_cons, ih, List.filter_map]
    rfl

/-- Names are left out before or after all but the first occurrences of each are. -/
theorem firsts_filter (keeps : String → Bool) (found : List Occurrence) :
    firsts (found.filter fun each => keeps each.name) =
      (firsts found).filter fun each => keeps each.name := by
  induction found with
  | nil => rfl
  | cons first rest ih =>
    rw [List.filter_cons]
    split
    · next kept => rw [firsts, firsts, ih, List.filter_cons, if_pos kept, List.filter_comm]
    · next dropped =>
      rw [ih, firsts, List.filter_cons, if_neg dropped, List.filter_filter]
      apply List.filter_congr
      intro each _
      by_cases same : each.name = first.name
      · simp [same, dropped]
      · simp [same]

/-- With more names bound, the same occurrences are reported, but for those that the names bind. -/
theorem reported_map_under {found : List Occurrence} (plain : ∀ one ∈ found, one.IsPlain) :
    reported schema options (found.map (.under names)) =
      ((reported schema options found).filter fun each => !bindsPath names each.name).map
        (.under names) := by
  rw [reported, reported, List.filter_map, firsts_map_under,
    ← firsts_filter fun name => !bindsPath names name, List.filter_filter]
  congr 2
  apply List.filter_congr
  intro one member
  rw [Function.comp_apply, (plain one member).counts_under, Bool.and_comm]

end Occurrence

/-! ## The report -/

/-- The report without the variables that some names bind. -/
def Report.hiding (names : List String) (report : Report) : Report where
  valid := report.valid.filter fun found => !Occurrence.bindsPath names found.name
  invalid := report.invalid.filter fun found => !Occurrence.bindsPath names found.name

namespace Analyzer

variable (analyzer : Analyzer)

/-- The report on occurrences with different names. -/
def reportOf (found : List Occurrence) : Report where
  valid := (found.filter (·.isValid analyzer.schema analyzer.options)).map
    (·.toVariable analyzer.schema analyzer.options)
  invalid := (found.filter (!·.isValid analyzer.schema analyzer.options)).map
    (·.toVariable analyzer.schema analyzer.options)

/-- The analysis of a template reports on the occurrences that are reported. -/
theorem analyzeNodes_of_binds {scope : Scope} {binders : List String}
    (same : scope.Binds binders) (nodes : List Node) :
    analyzer.analyzeNodes scope nodes = analyzer.reportOf
      (Occurrence.reported analyzer.schema analyzer.options
        ((occurrencesInAll analyzer.filters nodes).map (.under binders))) := by
  rw [analyzeNodes, analyzer.visitAll_eq_noteAll same, noteAll, foldl_note]
  simp [reportOf, Report.empty, Report.mentions, Report.validNames, Report.invalidNames,
    List.partition_eq_filter_filter, Function.comp_def]

/-- What is bound around an occurrence does not show in the report. -/
theorem reportOf_map_under (names : List String) (found : List Occurrence) :
    analyzer.reportOf (found.map (.under names)) = analyzer.reportOf found := by
  have shown (each : Occurrence) : (each.under names).toVariable analyzer.schema
      analyzer.options = each.toVariable analyzer.schema analyzer.options := rfl
  have valid (each : Occurrence) : (each.under names).isValid analyzer.schema
      analyzer.options = each.isValid analyzer.schema analyzer.options := rfl
  simp only [reportOf, List.filter_map, List.map_map, Function.comp_def, shown, valid]

theorem reportOf_filter (names : List String) (found : List Occurrence) :
    analyzer.reportOf (found.filter fun each => !Occurrence.bindsPath names each.name) =
      (analyzer.reportOf found).hiding names := by
  have name (each : Occurrence) :
      (each.toVariable analyzer.schema analyzer.options).name = each.name := rfl
  simp only [reportOf, Report.hiding, List.filter_map, List.filter_filter, Function.comp_def, name,
    Bool.and_comm]

/-- Where no output has blanks in its base, further names around a template take the variables that
they bind out of the report, and leave all others as they are. -/
theorem analyzeNodes_bindAll (scope : Scope) (names : List String) (nodes : List Node)
    (solid : ∀ expression ∈ outputsInAll nodes, hasBlankBase expression = false) :
    analyzer.analyzeNodes (names.foldl Scope.bind scope) nodes =
      (analyzer.analyzeNodes scope nodes).hiding names := by
  have named : scope.Binds scope.names.keys := fun _ => Iff.rfl
  have wider : (names.foldl Scope.bind scope).Binds (names ++ scope.names.keys) := fun name => by
    rw [named.foldl names name, List.mem_append, List.mem_append, or_comm]
  have free : ∀ one ∈ occurrencesInAll analyzer.filters nodes, one.IsPlain :=
    forall_occurrencesInAll Occurrence.isCommon_isPlain nodes fun expression member token =>
      Occurrence.forall_isPlain (solid expression member) token
  have plain := (Occurrence.isCommon_isPlain default).forall_under free scope.names.keys
  have inner : (occurrencesInAll analyzer.filters nodes).map
        (Occurrence.under (names ++ scope.names.keys)) =
      ((occurrencesInAll analyzer.filters nodes).map (Occurrence.under scope.names.keys)).map
        (Occurrence.under names) := by
    rw [List.map_map]
    exact List.map_congr_left fun each _ => (each.under_under names scope.names.keys).symm
  rw [analyzer.analyzeNodes_of_binds wider, analyzer.analyzeNodes_of_binds named, inner,
    Occurrence.reported_map_under plain, reportOf_map_under, reportOf_filter]

end Analyzer

/-! An output of a digest, which reads a name from the events of a step, before another output. -/

/-- The nodes of `{{ steps.d.events | digest: 2, 'payload.name' }}{{ payload.a }}`. -/
def digestNodes : List Node :=
  [.output "steps.d.events | digest: 2, 'payload.name'"
      ⟨"\x7b\x7b steps.d.events | digest: 2, 'payload.name' \x7d\x7d", ⟨0, 48⟩⟩,
    .output "payload.a" ⟨"\x7b\x7b payload.a \x7d\x7d", ⟨48, 63⟩⟩]

theorem analyzeNodes_bindAll_digest :
    (∀ expression ∈ outputsInAll digestNodes, hasBlankBase expression = false) ∧
      Analyzer.analyzeNodes ⟨none, .defaults, .standard⟩ (["steps.d"].foldl Scope.bind .empty)
          digestNodes =
        ⟨[⟨"payload.a", ⟨"\x7b\x7b payload.a \x7d\x7d", ⟨48, 63⟩⟩, none, none, none⟩], []⟩ ∧
      (Analyzer.analyzeNodes ⟨none, .defaults, .standard⟩ .empty digestNodes).validNames =
        ["steps.d.events", "steps.d.events.payload.name", "payload.a"] := by
  have solid : ∀ expression ∈ outputsInAll digestNodes, hasBlankBase expression = false := by
    decide +kernel
  refine ⟨solid, ?_, by decide +kernel⟩
  rw [Analyzer.analyzeNodes_bindAll ⟨none, .defaults, .standard⟩ .empty ["steps.d"] digestNodes solid]
  decide +kernel

end MessageTemplate.Analysis
