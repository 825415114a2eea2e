import Mathlib.Data.List.Basic
import MessageTemplate.Analysis.KeyPath
import MessageTemplate.Filter.Rules
import MessageTemplate.Proofs.Analysis.Occurrence

/-! # The key paths that are listed

The walk over a template and the rules of the filters pick the key path from the same arguments,
each by its own count. Where the rules find no fault, both pick the same text unless an argument with
a name stands before it, and then the walk picks none (`keyPath?_of_faultless`). So what is listed
for the filters of a valid events collection is what their rules mean, up to these arguments. -/

namespace MessageTemplate.Analysis

open Template

/-! ## Two counts of arguments -/

/-- Leaving out some items does not move those in front of the first of them. -/
theorem getElem?_filter_of_all_take {α : Type} (keep : α → Bool) (items : List α) (position : Nat)
    (kept : (items.take (position + 1)).all keep = true) :
    (items.filter keep)[position]? = items[position]? := by
  induction items generalizing position with
  | nil => rfl
  | cons item rest ih =>
      rw [List.take_succ_cons, List.all_cons, Bool.and_eq_true] at kept
      rw [List.filter_cons_of_pos kept.1]
      cases position with
      | zero => rfl
      | succ position => exact ih position kept.2

theorem isPositional_of_text? {argument : Argument} {text : String}
    (found : argument.text? = some text) : argument.isPositional = true := by
  cases argument with
  | text => rfl
  | number | boolean | nil | reference | keyword => contradiction

theorem validate_digest (context : Filter.Context) (arguments : List Argument) :
    Filter.Registry.defaults.validate "digest" context arguments =
      Filter.digestRule context (arguments.filter Argument.isPositional) := rfl

/-- Where the rule of a digest finds no fault, the first argument without a name is no text: it is
the number of names to show. -/
theorem text?_eq_none_of_validate_digest {context : Filter.Context} {arguments rest : List Argument}
    {first : Argument} (listed : arguments.filter Argument.isPositional = first :: rest)
    (faultless : Filter.Registry.defaults.validate "digest" context arguments = []) :
    first.text? = none := by
  rw [validate_digest, listed, Filter.digestRule, List.append_eq_nil_iff] at faultless
  obtain ⟨numeric, -⟩ := faultless
  cases first with
  | text => contradiction
  | number | boolean | nil | reference | keyword => rfl

theorem keyPathPosition?_eq_some {filter : String} {position : Nat}
    (counted : keyPathPosition? filter = some position) :
    filter = "toSentence" ∧ position = 0 ∨ filter = "digest" ∧ position = 1 := by
  unfold keyPathPosition? at counted
  split at counted
  · exact .inl ⟨rfl, (Option.some.inj counted).symm⟩
  · exact .inr ⟨rfl, (Option.some.inj counted).symm⟩
  · contradiction

/-- Where the rules find no fault, no text stands where the walk looks for the key path, if an
argument up to there has a name. -/
theorem text?_eq_none_of_named {name : String} {arguments : List Argument}
    {context : Filter.Context} {position : Nat}
    (faultless : Filter.Registry.defaults.validate name context arguments = [])
    (counted : keyPathPosition? name = some position)
    (named : (arguments.take (position + 1)).all Argument.isPositional = false) :
    arguments[position]?.bind Argument.text? = none := by
  by_contra found
  obtain ⟨text, found⟩ := Option.ne_none_iff_exists'.mp found
  obtain ⟨argument, stands, isText⟩ := Option.bind_eq_some_iff.mp found
  have positional := isPositional_of_text? isText
  rcases keyPathPosition?_eq_some counted with ⟨rfl, rfl⟩ | ⟨rfl, rfl⟩
  · obtain ⟨rest, rfl⟩ : ∃ rest, arguments = argument :: rest := by
      cases arguments with
      | nil => contradiction
      | cons first rest => exact ⟨rest, by rw [Option.some.inj stands]⟩
    simp [positional] at named
  · -- the text is the first argument without a name, where the rule asks for a number
    obtain ⟨first, rest, rfl⟩ : ∃ first rest, arguments = first :: argument :: rest := by
      match arguments, stands with
      | first :: second :: rest, stands => exact ⟨first, rest, by rw [Option.some.inj stands]⟩
    have key : first.isPositional = false := by simpa [positional] using named
    have listed : (first :: argument :: rest).filter Argument.isPositional =
        argument :: rest.filter Argument.isPositional := by
      rw [List.filter_cons_of_neg (by simp [key]), List.filter_cons_of_pos positional]
    rw [text?_eq_none_of_validate_digest listed faultless] at isText
    contradiction

/-- The key path that the walk picks is a text that is a chain of names. -/
theorem keyPath?_eq_filter (call : FilterCall) :
    keyPath? call = ((keyPathPosition? call.name).bind fun position =>
      call.arguments[position]?.bind Argument.text?).filter StepPath.isNameChain := by
  rw [keyPath?]
  cases keyPathPosition? call.name with
  | none => rfl
  | some position =>
      simp only [Option.bind_eq_bind, Option.bind_some]
      cases call.arguments[position]? with
      | none => rfl
      | some argument =>
          simp only [Option.bind_some]
          cases argument.text? with
          | none => rfl
          | some text => rfl

/-- Where the rules find no fault, the key path that the walk picks is that of the rule, unless an
argument with a name stands before it. Then the walk picks none. -/
theorem keyPath?_of_faultless {call : FilterCall} {context : Filter.Context}
    (faultless : Filter.Registry.defaults.validate call.name context call.arguments = []) :
    keyPath? call =
      if leadsWithKeyPath call then (checkedKeyPath? call).filter StepPath.isNameChain
      else none := by
  rw [keyPath?_eq_filter, checkedKeyPath?, leadsWithKeyPath]
  cases counted : keyPathPosition? call.name with
  | none => simp
  | some position =>
      simp only [Option.all_some, Option.bind_some, Option.bind_eq_bind]
      split
      · next positional =>
          rw [getElem?_filter_of_all_take _ _ _ positional]
      · next named =>
          rw [text?_eq_none_of_named faultless counted (Bool.eq_false_iff.mpr named),
            Option.filter_none]

/-- What the walk reads from each event is what the rule of the filter means, unless an argument with
a name stands before the key path. -/
theorem map_keyPath?_of_faultless {call : FilterCall} {context : Filter.Context}
    (faultless : Filter.Registry.defaults.validate call.name context call.arguments = [])
    (events : String) :
    (keyPath? call).map (events ++ "." ++ ·) =
      (elementName? events call).filter fun _ => leadsWithKeyPath call := by
  rw [keyPath?_of_faultless faultless, elementName?]
  cases (checkedKeyPath? call).filter StepPath.isNameChain with
  | none => simp
  | some path => cases leadsWithKeyPath call <;> rfl

/-! ## What is listed -/

/-- Adding a variable lists that variable at most. -/
theorem Report.mem_add {report : Report} {added found : Variable} {valid : Bool}
    (member : found ∈ (report.add added valid).valid ++ (report.add added valid).invalid) :
    found ∈ report.valid ++ report.invalid ∨ found = added := by
  rw [Report.add] at member
  split at member
  · exact .inl member
  · cases valid with
    | true =>
        simp only [↓reduceIte, List.append_assoc, List.mem_append, List.mem_singleton] at member ⊢
        tauto
    | false =>
        simp only [Bool.false_eq_true, ↓reduceIte, List.mem_append, List.mem_singleton] at member ⊢
        tauto

namespace Analyzer

variable {analyzer : Analyzer} {scope : Scope} {token : Token}

/-- Recording a name mentions it, unless it is bound. -/
theorem mentions_record (context : Option String) (issue : Option Filter.Issue) (report : Report)
    (name other : String) :
    (analyzer.record scope token context issue report name).mentions other =
      (report.mentions other || other == name && !scope.binds name) := by
  cases bound : scope.binds name with
  | true => simp [record, judge, bound]
  | false =>
      have judged : judge analyzer.schema analyzer.options scope name ≠ .bound := by
        rw [judge, bound]
        exact judgeFree_ne_bound _ _ _
      rw [record]
      split
      · contradiction
      · rw [Report.mentions_add, Bool.not_false, Bool.and_true]
      · rw [Report.mentions_add, Bool.not_false, Bool.and_true]

/-- Recording a name lists at most a variable of that name. -/
theorem mem_record {context : Option String} {issue : Option Filter.Issue} {report : Report}
    {name : String} {found : Variable}
    (member : found ∈ (analyzer.record scope token context issue report name).valid ++
      (analyzer.record scope token context issue report name).invalid) :
    found ∈ report.valid ++ report.invalid ∨
      found.name = name ∧ found.token = token ∧ found.context = context := by
  rw [record] at member
  split at member
  · exact .inl member
  · exact (Report.mem_add member).imp_right (by rintro rfl; exact ⟨rfl, rfl, rfl⟩)
  · exact (Report.mem_add member).imp_right (by rintro rfl; exact ⟨rfl, rfl, rfl⟩)

/-- Listing what the filters of a collection read from each event mentions these names, and takes
back none that has been mentioned. -/
theorem mentions_foldl_recordElement (events : String) (calls : List FilterCall) (report : Report)
    (name : String) :
    (calls.foldl (analyzer.recordElement scope token events) report).mentions name = true ↔
      report.mentions name = true ∨ scope.binds name = false ∧
        ∃ call ∈ calls, elementName? events call = some name ∧ leadsWithKeyPath call = true := by
  induction calls generalizing report with
  | nil => simp
  | cons call rest ih =>
      rw [List.foldl_cons, ih, recordElement]
      cases listed : (elementName? events call).filter fun _ => leadsWithKeyPath call with
      | none =>
          have skipped : ¬ (elementName? events call = some name ∧
              leadsWithKeyPath call = true) := by
            rintro ⟨named, leads⟩
            rw [named, leads] at listed
            contradiction
          simp [skipped]
      | some other =>
          obtain ⟨named, leads⟩ := Option.filter_eq_some_iff.mp listed
          simp only [mentions_record, named, leads, Option.some.injEq, List.mem_cons,
            exists_eq_or_imp, and_true, Bool.or_eq_true, Bool.and_eq_true, beq_iff_eq,
            Bool.not_eq_true']
          by_cases same : name = other
          · subst same
            tauto
          · simp [same, Ne.symm same]

/-- Listing what the filters of a collection read from each event lists nothing else. -/
theorem mem_foldl_recordElement {events : String} {calls : List FilterCall} {report : Report}
    {found : Variable}
    (member : found ∈ (calls.foldl (analyzer.recordElement scope token events) report).valid ++
      (calls.foldl (analyzer.recordElement scope token events) report).invalid) :
    found ∈ report.valid ++ report.invalid ∨
      ∃ call ∈ calls, elementName? events call = some found.name ∧
        leadsWithKeyPath call = true ∧ found.context = some call.name ∧ found.token = token := by
  induction calls generalizing report with
  | nil => exact .inl member
  | cons call rest ih =>
      rcases ih member with earlier | ⟨other, later, read⟩
      · rw [recordElement] at earlier
        split at earlier
        · next name listed =>
          obtain ⟨named, leads⟩ := Option.filter_eq_some_iff.mp listed
          refine (mem_record earlier).imp_right ?_
          rintro ⟨rfl, rfl, context⟩
          exact ⟨call, List.mem_cons_self, named, leads, context, rfl⟩
        · exact .inl earlier
      · exact .inr ⟨other, List.mem_cons_of_mem _ later, read⟩

variable {base events : String} {calls : List FilterCall}

/-- A chain without an issue has no filter with one. -/
theorem ValidEvents.validate (valid : analyzer.ValidEvents scope base events calls)
    {call : FilterCall} (member : call ∈ calls) :
    analyzer.filters.validate call.name ⟨true⟩ call.arguments = [] := by
  have faultless := List.findSome?_eq_none_iff.mp valid.faultless call member
  exact List.head?_eq_none_iff.mp faultless

theorem visitOutput_of_accepted {expression : String}
    (split : splitFilters expression = (base, calls))
    (valid : analyzer.ValidEvents scope base events calls) (token : Token) (report : Report) :
    analyzer.visitOutput scope expression token report =
      calls.foldl (analyzer.recordKeyPath scope token events)
        (analyzer.recordReferences scope token events calls report) := by
  have full : base ≠ "" := by
    rintro rfl
    have isEvents := valid.isEvents
    rw [← valid.normalized] at isEvents
    revert isEvents
    decide
  simp only [visitOutput, split, full, valid.isPath, valid.solid, valid.normalized, valid.isEvents,
    valid.faultless, valid.accepted, recordReferences]
  simp

/-- For the filters of an output on an events collection that is found valid, the walk over a template
lists what each of them reads from each event by its rule, unless an argument with a name stands
before the key path: then nothing is listed for the filter. So the walk agrees with the rule exactly
for filters without such arguments. What it lists is mentioned unless it is bound, under the name of the
filter unless it was listed before, and no other name is listed behind the references. -/
theorem visitOutput_of_validEvents {expression : String}
    (defaults : analyzer.filters = Filter.Registry.defaults)
    (split : splitFilters expression = (base, calls))
    (valid : analyzer.ValidEvents scope base events calls) (token : Token) (report : Report) :
    let start := analyzer.recordReferences scope token events calls report
    let listed := analyzer.visitOutput scope expression token report
    listed = calls.foldl (analyzer.recordElement scope token events) start ∧
      (∀ call ∈ calls, (keyPath? call).map (events ++ "." ++ ·) = elementName? events call ↔
        ((elementName? events call).isSome → leadsWithKeyPath call)) ∧
      (∀ name, listed.mentions name ↔ start.mentions name ∨ scope.binds name = false ∧
        ∃ call ∈ calls, elementName? events call = some name ∧ leadsWithKeyPath call) ∧
      ∀ found ∈ listed.valid ++ listed.invalid, found ∈ start.valid ++ start.invalid ∨
        ∃ call ∈ calls, elementName? events call = some found.name ∧ leadsWithKeyPath call ∧
          found.context = some call.name ∧ found.token = token := by
  intro start listed
  have read {call : FilterCall} (member : call ∈ calls) :=
    map_keyPath?_of_faultless (defaults ▸ valid.validate member) events
  have whole : listed = calls.foldl (analyzer.recordElement scope token events) start := by
    simp only [listed, visitOutput_of_accepted split valid]
    refine List.foldl_ext _ _ _ fun report call member => ?_
    rw [recordElement, ← read member, recordKeyPath]
    cases keyPath? call with
    | none => rfl
    | some path => rfl
  refine ⟨whole, fun call member => ?_, fun name => ?_, fun found member => ?_⟩
  · rw [read member]
    cases elementName? events call with
    | none => simp
    | some name => simp [Option.filter]
  · rw [whole]
    exact mentions_foldl_recordElement events calls start name
  · rw [whole] at member
    exact mem_foldl_recordElement member

end Analyzer

/-- The usual analyzer without a schema. -/
def usualAnalyzer : Analyzer := ⟨none, .defaults, .standard⟩

theorem validEvents_of_steps (calls : List FilterCall)
    (faultless : usualAnalyzer.filters.firstIssue? calls ⟨true⟩ = none) :
    usualAnalyzer.ValidEvents .empty "steps.d.events" "steps.d.events" calls :=
  ⟨by decide +kernel, by decide +kernel, by decide +kernel, by decide +kernel, faultless,
    by decide +kernel⟩

/-- A sentence of names, with its key path in front of an argument with a name. -/
theorem visitOutput_mentions_sentence :
    ∃ calls, splitFilters "steps.d.events | toSentence: 'payload.name', words: 'x'" =
        ("steps.d.events", calls) ∧
      (usualAnalyzer.visitOutput .empty "steps.d.events | toSentence: 'payload.name', words: 'x'"
        ⟨"", ⟨0, 0⟩⟩ .empty).mentions "steps.d.events.payload.name" := by
  have split : splitFilters "steps.d.events | toSentence: 'payload.name', words: 'x'" =
      ("steps.d.events", [⟨"toSentence", [.text "payload.name", .keyword "words" (.text "x")]⟩]) := by
    rfl
  have valid := validEvents_of_steps
    [⟨"toSentence", [.text "payload.name", .keyword "words" (.text "x")]⟩] rfl
  refine ⟨_, split, ?_⟩
  obtain ⟨-, -, mentioned, -⟩ :=
    Analyzer.visitOutput_of_validEvents rfl split valid ⟨"", ⟨0, 0⟩⟩ .empty
  rw [mentioned]
  exact .inr ⟨by decide +kernel, _, List.mem_cons_self, rfl, rfl⟩

/-- An argument with a name in front of the key path keeps it from being listed. -/
theorem visitOutput_misses_sentence :
    ∃ call, splitFilters "steps.d.events | toSentence: words: 'x', 'payload.name'" =
        ("steps.d.events", [call]) ∧
      usualAnalyzer.ValidEvents .empty "steps.d.events" "steps.d.events" [call] ∧
      elementName? "steps.d.events" call = some "steps.d.events.payload.name" ∧
      (usualAnalyzer.visitOutput .empty "steps.d.events | toSentence: words: 'x', 'payload.name'"
        ⟨"", ⟨0, 0⟩⟩ .empty).mentions "steps.d.events.payload.name" = false := by
  refine ⟨⟨"toSentence", [.keyword "words" (.text "x"), .text "payload.name"]⟩, rfl,
    validEvents_of_steps _ rfl, rfl, by decide +kernel⟩

end MessageTemplate.Analysis
