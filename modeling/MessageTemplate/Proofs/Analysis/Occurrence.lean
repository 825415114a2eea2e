import Mathlib.Data.List.Basic
import MessageTemplate.Analysis.Occurrence

/-! # The analysis lists the occurrences of names

The walk over a template threads a scope by copy through every form of node and looks at one
report to leave out names that it has met. It is compared with the list of occurrences, which are
found part by part with their binders. Every visit of a part adds the occurrences of that part one
after another, each in the scope of its place (`Analyzer.visitAll_eq_noteAll`), and adding them
one after another leaves the first that nothing binds of each name (`Analyzer.foldl_note`).
-/

namespace MessageTemplate.Analysis

open Template

/-! ## Binders -/

/-- The bound names of a scope are those of a list of binders. -/
def Scope.Binds (scope : Scope) (binders : List String) : Prop :=
  ∀ name, name ∈ scope.names.keys ↔ name ∈ binders

theorem mem_keys_insert {α : Type} (key name : String) (value : α) (entries : Keyed α) :
    name ∈ Keyed.keys (Keyed.insert key value entries) ↔
      name = key ∨ name ∈ Keyed.keys entries := by
  induction entries with
  | nil => simp [Keyed.insert, Keyed.keys]
  | cons entry rest ih =>
      obtain ⟨other, old⟩ := entry
      rw [Keyed.insert]
      split
      · next same =>
          subst same
          simp [Keyed.keys]
      · split
        · simp [Keyed.keys]
        · simp only [Keyed.keys, List.map_cons, List.mem_cons] at ih ⊢
          rw [ih, or_left_comm]

namespace Scope

variable {scope : Scope} {binders : List String}

theorem Binds.bind (same : scope.Binds binders) (target : String) :
    (scope.bind target).Binds (binders ++ [target]) := by
  intro name
  rw [Scope.bind, mem_keys_insert, same name, List.mem_append, List.mem_singleton, or_comm]

/-- A path is bound in a scope as it is among the binders. -/
theorem Binds.binds_eq (same : scope.Binds binders) (path : String) :
    scope.binds path = Occurrence.bindsPath binders path := by
  rw [Bool.eq_iff_iff, Scope.binds, Occurrence.bindsPath, List.any_eq_true, List.any_eq_true]
  exact exists_congr fun name => and_congr_left fun _ => same name

/-- The scope behind a node has the names that the node binds. -/
theorem Binds.after (same : scope.Binds binders) (node : Node) :
    (scopeAfter scope node).Binds (binders ++ bindersAfter node) := by
  cases node with
  | assign target _ _ => exact same.bind target
  | capture target _ _ => exact same.bind target
  | tag tag =>
      simp only [scopeAfter, bindersAfter]
      split
      · by_cases blank : Text.trimmed tag.markup = ""
        · simpa [blank] using same
        · simpa [blank] using same.bind _
      · simpa using same
  | text | output | loop | conditional | case => simpa [scopeAfter, bindersAfter] using same

/-- The scope of the body of a loop has the names that the loop binds. -/
theorem Binds.loop (same : scope.Binds binders) (kind : LoopKind) (iterator : String) :
    (loopScope scope kind iterator).Binds (binders ++ loopBinders kind iterator) := by
  have inside := (same.bind iterator).bind loopState
  rw [List.append_assoc] at inside
  cases kind with
  | list => exact inside
  | table =>
      have table := inside.bind tableLoopState
      rwa [List.append_assoc] at table

end Scope

theorem Occurrence.under_under (found : Occurrence) (outer inner : List String) :
    (found.under inner).under outer = found.under (outer ++ inner) := by
  simp only [Occurrence.under, List.append_assoc]

/-! ## Adding occurrences one after another -/

namespace Analyzer

variable (analyzer : Analyzer)

/-- Adds an occurrence to a report, unless something binds it. -/
def note (report : Report) (found : Occurrence) : Report :=
  if found.isFounded analyzer.schema analyzer.options && !found.isBound then
    report.add (found.toVariable analyzer.schema analyzer.options)
      (found.isValid analyzer.schema analyzer.options)
  else report

/-- Adds the occurrences of a part of a template around which some names are bound. -/
def noteAll (binders : List String) (report : Report) (found : List Occurrence) : Report :=
  (found.map (.under binders)).foldl analyzer.note report

variable (binders : List String) (report : Report)

@[simp] theorem noteAll_nil : analyzer.noteAll binders report [] = report := rfl

@[simp] theorem noteAll_cons (first : Occurrence) (rest : List Occurrence) :
    analyzer.noteAll binders report (first :: rest) =
      analyzer.noteAll binders (analyzer.note report (first.under binders)) rest := rfl

theorem noteAll_append (left right : List Occurrence) :
    analyzer.noteAll binders report (left ++ right) =
      analyzer.noteAll binders (analyzer.noteAll binders report left) right := by
  simp [noteAll]

/-- Names that a part binds around its own part come behind those bound around it. -/
theorem noteAll_under (inner : List String) (found : List Occurrence) :
    analyzer.noteAll binders report (found.map (.under inner)) =
      analyzer.noteAll (binders ++ inner) report found := by
  rw [noteAll, noteAll, List.map_map]
  exact congrArg _ (List.map_congr_left fun each _ => each.under_under binders inner)

theorem noteAll_flatMap {α : Type} (items : List α) (inside : α → List Occurrence) :
    analyzer.noteAll binders report (items.flatMap inside) =
      items.foldl (fun report item => analyzer.noteAll binders report (inside item)) report := by
  induction items generalizing report with
  | nil => rfl
  | cons item rest ih => rw [List.flatMap_cons, noteAll_append, ih, List.foldl_cons]

/-! ## Every visit adds the occurrences of its part -/

variable {binders} {scope : Scope}

theorem judgeFree_ne_bound (schema : Option Schema) (options : Options) (name : String) :
    judgeFree schema options name ≠ .bound := by
  unfold judgeFree
  repeat' split
  all_goals exact Verdict.noConfusion

/-- A name is recorded as its occurrence is noted. -/
theorem record_eq_note (same : scope.Binds binders) (token : Token) (context : Option String)
    (issue : Option Filter.Issue) (name : String) :
    analyzer.record scope token context issue report name =
      analyzer.note report ⟨name, token, context, issue, false, none, binders⟩ := by
  rw [record, judge, same.binds_eq, note]
  cases bound : Occurrence.bindsPath binders name with
  | true => simp [Occurrence.isBound, bound]
  | false =>
      cases verdict : judgeFree analyzer.schema analyzer.options name with
      | bound => exact absurd verdict (judgeFree_ne_bound _ _ _)
      | valid =>
          simp [Occurrence.isFounded, Occurrence.isBound, Occurrence.toVariable,
            Occurrence.isValid, Occurrence.problem?, bound, verdict]
      | invalid problem =>
          simp [Occurrence.isFounded, Occurrence.isBound, Occurrence.toVariable,
            Occurrence.isValid, Occurrence.problem?, bound, verdict]

theorem foldl_record_eq_noteAll (same : scope.Binds binders) (token : Token) (context : String)
    (names : List String) :
    names.foldl (analyzer.record scope token (some context) none) report =
      analyzer.noteAll binders report (names.map (.within context token)) := by
  induction names generalizing report with
  | nil => rfl
  | cons name rest ih =>
      rw [List.foldl_cons, ih, analyzer.record_eq_note report same, List.map_cons, noteAll_cons]
      simp only [Occurrence.within, Occurrence.under, List.append_nil]

theorem recordExpression_eq_noteAll (same : scope.Binds binders) (token : Token)
    (context expression : String) :
    analyzer.recordExpression scope token context report expression =
      analyzer.noteAll binders report (occurrencesInExpression context token expression) :=
  analyzer.foldl_record_eq_noteAll report same token context (identifiers expression)

theorem foldl_recordExpression_eq_noteAll (same : scope.Binds binders) (token : Token)
    (context : String) (expressions : List String) :
    expressions.foldl (analyzer.recordExpression scope token context) report =
      analyzer.noteAll binders report
        (expressions.flatMap (occurrencesInExpression context token)) := by
  rw [noteAll_flatMap]
  exact List.foldl_ext _ _ _ fun report expression _ =>
    analyzer.recordExpression_eq_noteAll report same token context expression

theorem foldl_recordArguments_eq_noteAll (same : scope.Binds binders) (token : Token)
    (calls : List FilterCall) :
    calls.foldl (analyzer.recordArguments scope token) report =
      analyzer.noteAll binders report (occurrencesInArguments token calls) := by
  rw [occurrencesInArguments, noteAll_flatMap]
  exact List.foldl_ext _ _ _ fun report call _ =>
    analyzer.foldl_record_eq_noteAll report same token call.name _

theorem bindsPath_eq_false_of_judge (same : scope.Binds binders) {name : String}
    (valid : judge analyzer.schema analyzer.options scope name = .valid) :
    Occurrence.bindsPath binders name = false ∧
      judgeFree analyzer.schema analyzer.options name = .valid := by
  rw [judge, same.binds_eq] at valid
  split at valid
  · exact Verdict.noConfusion valid
  · next free => exact ⟨Bool.eq_false_iff.mpr free, valid⟩

/-- What filters read from the elements of a collection that is valid in the scope counts. -/
theorem foldl_recordKeyPath_eq_noteAll (same : scope.Binds binders) (token : Token)
    (events : String) (calls : List FilterCall)
    (valid : judge analyzer.schema analyzer.options scope events = .valid) :
    calls.foldl (analyzer.recordKeyPath scope token events) report =
      analyzer.noteAll binders report (occurrencesInElements token events calls) := by
  obtain ⟨free, accepted⟩ := analyzer.bindsPath_eq_false_of_judge same valid
  induction calls generalizing report with
  | nil => rfl
  | cons call rest ih =>
      rw [List.foldl_cons, ih]
      cases found : keyPath? call with
      | none => simp [recordKeyPath, occurrencesInElements, found]
      | some path =>
          have founded : analyzer.recordKeyPath scope token events report call =
              analyzer.note report ⟨events ++ "." ++ path, token, some call.name, none, false,
                some events, binders⟩ := by
            simp only [recordKeyPath, found, analyzer.record_eq_note report same]
            simp [note, Occurrence.isFounded, Occurrence.isBound, Occurrence.toVariable,
              Occurrence.isValid, Occurrence.problem?, free, accepted]
          simp [founded, occurrencesInElements, found, Occurrence.under]

/-- What filters read from the elements of any other collection does not count. -/
theorem noteAll_elements_of_not_valid (same : scope.Binds binders) (token : Token)
    (events : String) (calls : List FilterCall)
    (refused : judge analyzer.schema analyzer.options scope events ≠ .valid) :
    analyzer.noteAll binders report (occurrencesInElements token events calls) = report := by
  have unfounded : (!Occurrence.bindsPath binders events &&
      judgeFree analyzer.schema analyzer.options events = .valid) = false := by
    rw [judge, same.binds_eq] at refused
    split at refused
    · next bound => simp [bound]
    · simp [refused]
  induction calls with
  | nil => rfl
  | cons call rest ih =>
      cases found : keyPath? call with
      | none => simpa [occurrencesInElements, found] using ih
      | some path =>
          have ignored : analyzer.note report ⟨events ++ "." ++ path, token, some call.name, none,
              false, some events, binders⟩ = report := by
            simp only [note, Occurrence.isFounded, Option.all_some, unfounded, Bool.false_and,
              Bool.false_eq_true, ↓reduceIte]
          simpa [occurrencesInElements, found, Occurrence.under, ignored] using ih

theorem visitOutput_eq_noteAll (same : scope.Binds binders) (expression : String)
    (token : Token) :
    analyzer.visitOutput scope expression token report =
      analyzer.noteAll binders report
        (occurrencesInOutput analyzer.filters expression token) := by
  simp only [visitOutput, occurrencesInOutput]
  split
  · exact analyzer.foldl_recordArguments_eq_noteAll report same token _
  · split
    · -- a base with blanks is listed in any scope
      simp [note, Occurrence.isFounded, Occurrence.isBound, Occurrence.under,
        Occurrence.toVariable, Occurrence.isValid, Occurrence.problem?]
    · rw [noteAll_append, noteAll_cons, analyzer.record_eq_note report same,
        analyzer.foldl_recordArguments_eq_noteAll _ same]
      generalize Path.normalize (splitFilters expression).1 = name
      generalize analyzer.filters.firstIssue? _ _ = issue
      simp only [Occurrence.under, List.append_nil]
      by_cases counts : (StepPath.isEvents name && issue.isNone) = true
      · obtain ⟨isEvents, faultless⟩ := Bool.and_eq_true_iff.mp counts
        by_cases valid : judge analyzer.schema analyzer.options scope name = .valid
        · simp only [isEvents, faultless, valid, Bool.and_self, decide_true, ↓reduceIte]
          exact analyzer.foldl_recordKeyPath_eq_noteAll _ same token name _ valid
        · simp only [isEvents, faultless, valid, Bool.and_self, Bool.true_and, decide_false,
            ↓reduceIte]
          exact (analyzer.noteAll_elements_of_not_valid _ same token name _ valid).symm
      · have skipped : ((issue.isNone && judge analyzer.schema analyzer.options scope name =
            .valid) && StepPath.isEvents name) = false := by
          simp only [Bool.and_eq_true, not_and, Bool.not_eq_true] at counts
          by_cases isEvents : StepPath.isEvents name = true
          · simp [counts isEvents, isEvents]
          · simp [isEvents]
        simp only [counts, skipped, Bool.false_eq_true, ↓reduceIte, noteAll_nil]

theorem visitCollection_eq_noteAll (same : scope.Binds binders) (token : Token)
    (context : String) (collection : Collection) :
    analyzer.visitCollection scope token context collection report =
      analyzer.noteAll binders report (occurrencesInCollection context token collection) := by
  cases collection with
  | range first last =>
      exact analyzer.foldl_recordExpression_eq_noteAll report same token context _
  | expression text =>
      simp only [visitCollection, occurrencesInCollection]
      split
      · rfl
      · exact analyzer.foldl_record_eq_noteAll report same token context [_]

theorem visitLoopHead_eq_noteAll (same : scope.Binds binders) (kind : LoopKind)
    (collection : Collection) (params : String) (token : Token) :
    analyzer.visitLoopHead scope kind collection params token report =
      analyzer.noteAll binders report (occurrencesInLoopHead kind collection params token) := by
  rw [visitLoopHead, occurrencesInLoopHead, noteAll_append,
    analyzer.visitCollection_eq_noteAll report same]
  split
  · rfl
  · exact analyzer.recordExpression_eq_noteAll _ same token kind.tagName params

/-! ## Whole trees -/

mutual

/-- Visiting a node adds the occurrences in it. -/
theorem visit_eq_noteAll {scope : Scope} {binders : List String}
    (same : scope.Binds binders) (report : Report) (node : Node) :
    analyzer.visit scope report node =
      analyzer.noteAll binders report (occurrences analyzer.filters node) := by
  cases node with
  | text => rfl
  | output expression token =>
      exact analyzer.visitOutput_eq_noteAll report same expression token
  | assign target expression token =>
      rw [visit, occurrences, noteAll_under]
      exact analyzer.recordExpression_eq_noteAll report (same.bind target) token _ expression
  | capture target body token =>
      rw [visit, occurrences, noteAll_under]
      exact visitAll_eq_noteAll (same.bind target) report body
  | loop kind iterator collection params body otherwise token =>
      rw [visit, occurrences, noteAll_append, noteAll_append, noteAll_under,
        analyzer.visitLoopHead_eq_noteAll report same,
        visitAll_eq_noteAll (same.loop kind iterator) _ body,
        visitAll_eq_noteAll same _ otherwise]
  | conditional kind branches =>
      rw [visit, occurrences]
      exact visitBranches_eq_noteAll same kind report branches
  | case subject whens otherwise token =>
      rw [visit, occurrences, noteAll_append, noteAll_append,
        analyzer.recordExpression_eq_noteAll report same,
        visitWhens_eq_noteAll same _ whens, visitAll_eq_noteAll same _ otherwise]
  | tag tag =>
      rw [visit, occurrences, visitTag]
      split
      · exact analyzer.recordExpression_eq_noteAll report same tag.token _ tag.markup
      · rfl

/-- Visiting nodes adds the occurrences in them. -/
theorem visitAll_eq_noteAll {scope : Scope} {binders : List String}
    (same : scope.Binds binders) (report : Report) (nodes : List Node) :
    analyzer.visitAll scope report nodes =
      analyzer.noteAll binders report (occurrencesInAll analyzer.filters nodes) := by
  cases nodes with
  | nil => rfl
  | cons node rest =>
      rw [visitAll, occurrencesInAll, noteAll_append, noteAll_under,
        visit_eq_noteAll same report node, visitAll_eq_noteAll (same.after node) _ rest]

/-- Visiting the branches of a conditional adds the occurrences in them. -/
theorem visitBranches_eq_noteAll {scope : Scope} {binders : List String}
    (same : scope.Binds binders) (kind : ConditionalKind) (report : Report)
    (branches : List (Branch Node)) :
    analyzer.visitBranches scope kind report branches =
      analyzer.noteAll binders report
        (occurrencesInBranches analyzer.filters kind branches) := by
  cases branches with
  | nil => rfl
  | cons branch rest =>
      obtain ⟨condition, body, token⟩ := branch
      have first : analyzer.visitCondition scope kind condition token report =
          analyzer.noteAll binders report
            (condition.toList.flatMap (occurrencesInExpression kind.tagName token)) := by
        cases condition with
        | none => rfl
        | some condition =>
            exact analyzer.foldl_recordExpression_eq_noteAll report same token _ [condition]
      rw [visitBranches, occurrencesInBranches, noteAll_append, noteAll_append, first,
        visitAll_eq_noteAll same _ body, visitBranches_eq_noteAll same kind _ rest]

/-- Visiting the branches of a case distinction adds the occurrences in them. -/
theorem visitWhens_eq_noteAll {scope : Scope} {binders : List String}
    (same : scope.Binds binders) (report : Report) (whens : List (When Node)) :
    analyzer.visitWhens scope report whens =
      analyzer.noteAll binders report (occurrencesInWhens analyzer.filters whens) := by
  cases whens with
  | nil => rfl
  | cons branch rest =>
      obtain ⟨values, body, token⟩ := branch
      rw [visitWhens, occurrencesInWhens, noteAll_append, noteAll_append, visitValues,
        analyzer.foldl_recordExpression_eq_noteAll report same,
        visitAll_eq_noteAll same _ body, visitWhens_eq_noteAll same _ rest]

end

end Analyzer

/-! ## Which occurrences stay -/

namespace Occurrence

/-- No two of the first occurrences have one name. -/
theorem nodup_names_firsts (found : List Occurrence) : ((firsts found).map name).Nodup := by
  induction found with
  | nil => exact List.nodup_nil
  | cons first rest ih =>
      rw [firsts, List.map_cons, List.nodup_cons]
      constructor
      · intro member
        obtain ⟨later, kept, same⟩ := List.mem_map.mp member
        have differs := (List.mem_filter.mp kept).2
        rw [decide_eq_true_eq] at differs
        exact differs same
      · exact ih.sublist (List.filter_sublist.map _)

theorem reported_cons (schema : Option Schema) (options : Options) (first : Occurrence)
    (rest : List Occurrence) :
    reported schema options (first :: rest) =
      if first.isFounded schema options && !first.isBound then
        first :: (reported schema options rest).filter fun later => later.name ≠ first.name
      else reported schema options rest := by
  rw [reported, List.filter_cons]
  split
  · rw [firsts, reported]
  · rfl

end Occurrence

theorem Report.mentions_eq_true_iff {report : Report} {name : String} :
    report.mentions name = true ↔ name ∈ report.validNames ++ report.invalidNames := by
  rw [mentions, Bool.or_eq_true, List.contains_iff_mem, List.contains_iff_mem, List.mem_append]

/-- A report mentions what it mentioned and the name that is added. -/
theorem Report.mentions_add (report : Report) (found : Variable) (valid : Bool) (name : String) :
    (report.add found valid).mentions name = (report.mentions name || name == found.name) := by
  rw [Report.add]
  split
  · next present =>
      by_cases same : name = found.name
      · rw [same, present, Bool.true_or]
      · rw [beq_false_of_ne same, Bool.or_false]
  · rw [Bool.eq_iff_iff, Bool.or_eq_true, beq_iff_eq, mentions_eq_true_iff, mentions_eq_true_iff]
    cases valid <;> simp [validNames, invalidNames, or_comm, or_left_comm]

namespace Analyzer

variable (analyzer : Analyzer)

/-- Adding occurrences one after another leaves, behind what the report lists already, the first
of each name that the report does not mention. -/
theorem foldl_note (report : Report) (found : List Occurrence) :
    found.foldl analyzer.note report =
      let listed := (Occurrence.reported analyzer.schema analyzer.options found).filter
        fun each => !report.mentions each.name
      let (valid, invalid) := listed.partition (·.isValid analyzer.schema analyzer.options)
      ⟨report.valid ++ valid.map (·.toVariable analyzer.schema analyzer.options),
        report.invalid ++ invalid.map (·.toVariable analyzer.schema analyzer.options)⟩ := by
  induction found generalizing report with
  | nil => simp [Occurrence.reported, Occurrence.firsts]
  | cons first rest ih =>
      rw [List.foldl_cons, ih, Occurrence.reported_cons, note]
      split
      · generalize Occurrence.reported analyzer.schema analyzer.options rest = later
        by_cases present : report.mentions first.name = true
        · -- a name that is listed already is not listed again
          have same : (later.filter fun each => each.name ≠ first.name).filter
                (fun each => !report.mentions each.name) =
              later.filter fun each => !report.mentions each.name := by
            rw [List.filter_filter]
            apply List.filter_congr
            intro each _
            by_cases repeated : each.name = first.name
            · simp [repeated, present]
            · simp [repeated]
          have unchanged : report.add (first.toVariable analyzer.schema analyzer.options)
              (first.isValid analyzer.schema analyzer.options) = report := if_pos present
          rw [unchanged, List.filter_cons_of_neg (by simp [present]), same]
        · have others : (later.filter fun each => !(report.add
                (first.toVariable analyzer.schema analyzer.options)
                (first.isValid analyzer.schema analyzer.options)).mentions each.name) =
              (later.filter fun each => each.name ≠ first.name).filter
                fun each => !report.mentions each.name := by
            rw [List.filter_filter]
            apply List.filter_congr
            intro each _
            rw [Report.mentions_add]
            simp [Occurrence.toVariable, Bool.beq_eq_decide_eq]
          rw [others, List.filter_cons_of_pos (by simp [present])]
          have absent : ¬ report.mentions
              (first.toVariable analyzer.schema analyzer.options).name = true := present
          cases valid : first.isValid analyzer.schema analyzer.options with
          | true => simp [Report.add, absent, List.partition_eq_filter_filter, valid]
          | false => simp [Report.add, absent, List.partition_eq_filter_filter, valid]
      · rfl

/-- The names in a report on occurrences are those of the occurrences that are reported. -/
theorem perm_names_reportOccurrences (scope : Scope) (nodes : List Node) :
    ((analyzer.reportOccurrences scope nodes).validNames ++
        (analyzer.reportOccurrences scope nodes).invalidNames).Perm
      ((Occurrence.reported analyzer.schema analyzer.options
        ((occurrencesInAll analyzer.filters nodes).map (.under scope.names.keys))).map
          Occurrence.name) := by
  simp only [reportOccurrences, Report.validNames, Report.invalidNames,
    List.partition_eq_filter_filter, List.map_map]
  rw [show Variable.name ∘ Occurrence.toVariable analyzer.schema analyzer.options =
    Occurrence.name from rfl, ← List.map_append]
  exact (List.filter_append_perm _ _).map _

/-- The analysis of a template reports its occurrences: of each name the first that nothing binds
at its place, in the list that this occurrence belongs to. No name is reported twice. -/
theorem analyzeNodes_eq_reportOccurrences (scope : Scope) (nodes : List Node) :
    analyzer.analyzeNodes scope nodes = analyzer.reportOccurrences scope nodes ∧
      ((analyzer.analyzeNodes scope nodes).validNames ++
        (analyzer.analyzeNodes scope nodes).invalidNames).Nodup := by
  have same : analyzer.analyzeNodes scope nodes = analyzer.reportOccurrences scope nodes := by
    have named : scope.Binds scope.names.keys := fun _ => Iff.rfl
    rw [analyzeNodes, analyzer.visitAll_eq_noteAll named, noteAll, foldl_note, reportOccurrences]
    simp [Report.empty, Report.mentions, Report.validNames, Report.invalidNames]
  refine ⟨same, ?_⟩
  rw [same, (analyzer.perm_names_reportOccurrences scope nodes).nodup_iff]
  exact Occurrence.nodup_names_firsts _

end Analyzer

end MessageTemplate.Analysis
