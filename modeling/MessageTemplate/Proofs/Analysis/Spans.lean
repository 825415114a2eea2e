import MessageTemplate.Proofs.Analysis.Everywhere
import MessageTemplate.Proofs.Analysis.Hiding
import MessageTemplate.Proofs.Template.Trace

/-! # Where variables stand

Every variable of a report has the token of the piece in which it was found, and the pieces are visited
in the order of the source. So the tokens of the valid variables stand in the source one after another,
and so do those of the invalid ones (`analyzeChecked_standsIn`). The token of a fault stands in the
source as well, whether the template cannot be read or is refused once it has been. -/

namespace MessageTemplate.Analysis

open Template

/-! ## Lists drawn from others -/

/-- The elements of a list in their order, each of them left out or taken any number of times. -/
inductive DrawnFrom {α : Type} : List α → List α → Prop where
  | nil : DrawnFrom [] []
  | skip {taken source : List α} {one : α} :
      DrawnFrom taken source → DrawnFrom taken (one :: source)
  | take {taken source : List α} {one : α} :
      DrawnFrom taken (one :: source) → DrawnFrom (one :: taken) (one :: source)

namespace DrawnFrom

variable {α : Type} {taken source more others : List α}

theorem nil_left (source : List α) : DrawnFrom [] source := by
  induction source with
  | nil => exact .nil
  | cons one rest ih => exact .skip ih

theorem append (drawn : DrawnFrom taken source) (further : DrawnFrom more others) :
    DrawnFrom (taken ++ more) (source ++ others) := by
  induction drawn with
  | nil => exact further
  | skip _ ih => exact .skip ih
  | take _ ih => exact .take ih

theorem of_forall_eq {one : α} (same : ∀ each ∈ taken, each = one) : DrawnFrom taken [one] := by
  induction taken with
  | nil => exact nil_left _
  | cons first rest ih =>
    obtain ⟨rfl, others⟩ := List.forall_mem_cons.mp same
    exact .take (ih others)

theorem subset (drawn : DrawnFrom taken source) : taken ⊆ source := by
  induction drawn with
  | nil => exact List.Subset.refl _
  | skip _ ih => exact List.subset_cons_of_subset _ ih
  | take _ ih => exact List.cons_subset.mpr ⟨List.mem_cons_self, ih⟩

/-- What holds between the elements of a list, earlier and later ones, holds between those drawn from
it, if it holds of an element and itself. -/
theorem pairwise {related : α → α → Prop} (drawn : DrawnFrom taken source)
    (reflexive : ∀ one, related one one) (ordered : source.Pairwise related) :
    taken.Pairwise related := by
  induction drawn with
  | nil => exact .nil
  | skip _ ih => exact ih (List.pairwise_cons.mp ordered).2
  | @take taken source one drawn ih =>
    refine List.pairwise_cons.mpr ⟨fun later member => ?_, ih ordered⟩
    rcases List.mem_cons.mp (drawn.subset member) with rfl | behind
    · exact reflexive later
    · exact (List.pairwise_cons.mp ordered).1 later behind

end DrawnFrom

/-! ## The tokens of occurrences -/

/-- The tokens that occurrences have been found in. -/
def tokensOfOccurrences (found : List Occurrence) : List Token :=
  found.map Occurrence.token

theorem tokensOfOccurrences_append (left right : List Occurrence) :
    tokensOfOccurrences (left ++ right) = tokensOfOccurrences left ++ tokensOfOccurrences right :=
  List.map_append

/-- More names that are bound do not change where a name occurs. -/
theorem tokensOfOccurrences_under (found : List Occurrence) (names : List String) :
    tokensOfOccurrences (found.map (.under names)) = tokensOfOccurrences found := by
  rw [tokensOfOccurrences, List.map_map]
  rfl

theorem isCommon_token (token : Token) : IsCommon token fun one => one.token = token where
  within _ _ := rfl
  under _ _ same := same

/-- Occurrences of one token are drawn from it. -/
theorem drawnFrom_token {found : List Occurrence} {token : Token}
    (same : ∀ one ∈ found, one.token = token) : DrawnFrom (tokensOfOccurrences found) [token] :=
  .of_forall_eq (List.forall_mem_map.mpr same)

/-- All that an output reads is found in its token. -/
theorem token_of_mem_output (filters : Filter.Registry) (expression : String) (token : Token) :
    ∀ one ∈ occurrencesInOutput filters expression token, one.token = token := by
  have arguments := (isCommon_token token).forall_arguments
  unfold occurrencesInOutput
  split
  next base calls _ =>
  split
  · exact arguments calls
  split
  · exact List.forall_mem_singleton.mpr rfl
  refine List.forall_mem_append.mpr ⟨List.forall_mem_cons.mpr ⟨rfl, arguments calls⟩, ?_⟩
  split
  · intro one member
    obtain ⟨call, -, inside⟩ := List.mem_filterMap.mp member
    obtain ⟨path, -, rfl⟩ := Option.map_eq_some_iff.mp inside
    rfl
  · exact List.forall_mem_nil _

mutual

/-- What a node reads is found in its tokens, in their order. -/
theorem drawnFrom_tokens (filters : Filter.Registry) (node : Node) :
    DrawnFrom (tokensOfOccurrences (occurrences filters node)) node.tokens := by
  cases node with
  | text => exact .nil
  | output expression token => exact drawnFrom_token (token_of_mem_output filters expression token)
  | assign target expression token =>
    rw [occurrences, tokensOfOccurrences_under]
    exact drawnFrom_token ((isCommon_token token).forall_expression "assign" expression)
  | capture target body token =>
    rw [occurrences, tokensOfOccurrences_under]
    exact .skip (drawnFrom_tokensInAll filters body)
  | loop kind iterator collection params body otherwise token =>
    have head := drawnFrom_token ((isCommon_token token).forall_loopHead kind collection params)
    rw [occurrences, List.append_assoc, tokensOfOccurrences_append, tokensOfOccurrences_append,
      tokensOfOccurrences_under]
    exact head.append ((drawnFrom_tokensInAll filters body).append
      (drawnFrom_tokensInAll filters otherwise))
  | conditional kind branches => exact drawnFrom_tokensInBranches filters kind branches
  | case subject whens otherwise token =>
    have head := drawnFrom_token ((isCommon_token token).forall_expression "case" subject)
    rw [occurrences, List.append_assoc, tokensOfOccurrences_append, tokensOfOccurrences_append]
    exact head.append ((drawnFrom_tokensInWhens filters whens).append
      (drawnFrom_tokensInAll filters otherwise))
  | tag tag =>
    rw [occurrences]
    split
    · exact drawnFrom_token ((isCommon_token tag.token).forall_expression "cycle" tag.markup)
    · exact .skip .nil

theorem drawnFrom_tokensInAll (filters : Filter.Registry) (nodes : List Node) :
    DrawnFrom (tokensOfOccurrences (occurrencesInAll filters nodes)) (tokensInAll nodes) := by
  cases nodes with
  | nil => exact .nil
  | cons node rest =>
    rw [occurrencesInAll, tokensOfOccurrences_append, tokensOfOccurrences_under]
    exact (drawnFrom_tokens filters node).append (drawnFrom_tokensInAll filters rest)

theorem drawnFrom_tokensInBranches (filters : Filter.Registry) (kind : ConditionalKind)
    (branches : List (Branch Node)) :
    DrawnFrom (tokensOfOccurrences (occurrencesInBranches filters kind branches))
      (tokensInBranches branches) := by
  cases branches with
  | nil => exact .nil
  | cons branch rest =>
    obtain ⟨condition, body, token⟩ := branch
    have head := drawnFrom_token
      ((isCommon_token token).forall_expressions kind.tagName condition.toList)
    rw [occurrencesInBranches, List.append_assoc, tokensOfOccurrences_append,
      tokensOfOccurrences_append]
    exact head.append ((drawnFrom_tokensInAll filters body).append
      (drawnFrom_tokensInBranches filters kind rest))

theorem drawnFrom_tokensInWhens (filters : Filter.Registry) (whens : List (When Node)) :
    DrawnFrom (tokensOfOccurrences (occurrencesInWhens filters whens)) (tokensInWhens whens) := by
  cases whens with
  | nil => exact .nil
  | cons branch rest =>
    obtain ⟨values, body, token⟩ := branch
    have head := drawnFrom_token ((isCommon_token token).forall_expressions "when"
      (values.filter fun value => !isLiteral value))
    rw [occurrencesInWhens, List.append_assoc, tokensOfOccurrences_append,
      tokensOfOccurrences_append]
    exact head.append ((drawnFrom_tokensInAll filters body).append
      (drawnFrom_tokensInWhens filters rest))

end

/-! ## The tag that a message mentions -/

mutual

/-- The tag that a message mentions has one of the tokens of the node. -/
theorem mem_tokens_of_mentionedTag? {message : String} {node : Node} {token : Token}
    (found : mentionedTag? message node = some token) : token ∈ node.tokens := by
  cases node with
  | text => simp [mentionedTag?] at found
  | output => simp [mentionedTag?] at found
  | assign => simp [mentionedTag?] at found
  | capture target body _ =>
    rw [mentionedTag?] at found
    exact List.mem_cons_of_mem _ (mem_tokens_of_mentionedTagIn? found)
  | loop kind iterator collection params body otherwise _ =>
    rw [mentionedTag?] at found
    refine List.mem_cons_of_mem _ (List.mem_append.mpr ?_)
    split at found
    · next inside => exact .inl (mem_tokens_of_mentionedTagIn? (inside.trans found))
    · exact .inr (mem_tokens_of_mentionedTagIn? found)
  | conditional kind branches =>
    rw [mentionedTag?] at found
    exact mem_tokens_of_mentionedTagInBranches? found
  | case subject whens otherwise _ =>
    rw [mentionedTag?] at found
    refine List.mem_cons_of_mem _ (List.mem_append.mpr ?_)
    split at found
    · next inside => exact .inl (mem_tokens_of_mentionedTagInWhens? (inside.trans found))
    · exact .inr (mem_tokens_of_mentionedTagIn? found)
  | tag tag =>
    rw [mentionedTag?] at found
    split at found
    · exact List.mem_singleton.mpr (Option.some.inj found).symm
    · contradiction

theorem mem_tokens_of_mentionedTagIn? {message : String} {nodes : List Node} {token : Token}
    (found : mentionedTagIn? message nodes = some token) : token ∈ tokensInAll nodes := by
  cases nodes with
  | nil => simp [mentionedTagIn?] at found
  | cons node rest =>
    rw [mentionedTagIn?] at found
    refine List.mem_append.mpr ?_
    split at found
    · next inside => exact .inl (mem_tokens_of_mentionedTag? (inside.trans found))
    · exact .inr (mem_tokens_of_mentionedTagIn? found)

theorem mem_tokens_of_mentionedTagInBranches? {message : String} {branches : List (Branch Node)}
    {token : Token} (found : mentionedTagInBranches? message branches = some token) :
    token ∈ tokensInBranches branches := by
  cases branches with
  | nil => simp [mentionedTagInBranches?] at found
  | cons branch rest =>
    rw [mentionedTagInBranches?] at found
    refine List.mem_cons_of_mem _ (List.mem_append.mpr ?_)
    split at found
    · next inside => exact .inl (mem_tokens_of_mentionedTagIn? (inside.trans found))
    · exact .inr (mem_tokens_of_mentionedTagInBranches? found)

theorem mem_tokens_of_mentionedTagInWhens? {message : String} {whens : List (When Node)}
    {token : Token} (found : mentionedTagInWhens? message whens = some token) :
    token ∈ tokensInWhens whens := by
  cases whens with
  | nil => simp [mentionedTagInWhens?] at found
  | cons branch rest =>
    rw [mentionedTagInWhens?] at found
    refine List.mem_cons_of_mem _ (List.mem_append.mpr ?_)
    split at found
    · next inside => exact .inl (mem_tokens_of_mentionedTagIn? (inside.trans found))
    · exact .inr (mem_tokens_of_mentionedTagInWhens? found)

end

/-! ## The report -/

theorem Occurrence.firsts_sublist (found : List Occurrence) :
    (Occurrence.firsts found).Sublist found := by
  induction found with
  | nil => exact .slnil
  | cons first rest ih => exact (List.filter_sublist.trans ih).cons_cons first

/-- The variables stand in the source, the valid ones in its order, and the invalid ones too. -/
structure Report.StandsIn (source : String) (report : Report) : Prop where
  standsIn : ∀ found ∈ report.valid ++ report.invalid, found.token.StandsIn source
  valid : report.valid.Pairwise fun one other => one.token.span.start ≤ other.token.span.start
  invalid : report.invalid.Pairwise fun one other => one.token.span.start ≤ other.token.span.start

/-- The token that a fault blames is the only one that is reported. -/
theorem Report.standsIn_ofFault {source : String} {fault : Fault}
    (stands : ∀ token, fault.token = some token → token.StandsIn source) :
    (Report.ofFault fault).StandsIn source := by
  unfold Report.ofFault
  split
  · exact ⟨List.forall_mem_nil _, .nil, .nil⟩
  · next token blamed =>
    exact ⟨List.forall_mem_singleton.mpr (stands token blamed), .nil, List.pairwise_singleton _ _⟩

namespace Analyzer

variable (analyzer : Analyzer)

/-- The report on occurrences whose tokens are drawn from those of a source stands in the source. -/
theorem standsIn_reportOf {source : String} {tokens : List Token} {found reported : List Occurrence}
    (stand : StandInOrder source tokens) (drawn : DrawnFrom (tokensOfOccurrences found) tokens)
    (part : reported.Sublist found) : (analyzer.reportOf reported).StandsIn source := by
  have each : ∀ one ∈ reported, one.token.StandsIn source := fun one member =>
    stand.standsIn one.token (drawn.subset (List.mem_map_of_mem (part.subset member)))
  have starts : tokens.Pairwise fun one other => one.span.start ≤ other.span.start :=
    stand.ordered.imp_of_mem fun here _ before =>
      (stand.standsIn _ here).start_lt_stop.le.trans before
  have ordered (keeps : Occurrence → Bool) :
      ((reported.filter keeps).map (·.toVariable analyzer.schema analyzer.options)).Pairwise
        fun one other => one.token.span.start ≤ other.token.span.start := by
    refine List.pairwise_map.mpr ?_
    have drawn := drawn.pairwise (fun one => le_refl one.span.start) starts
    exact (List.pairwise_map.mp drawn).sublist (List.filter_sublist.trans part)
  refine ⟨?_, ordered _, ordered _⟩
  simp only [reportOf, List.forall_mem_append, List.forall_mem_map, List.mem_filter]
  exact ⟨fun one member => each one member.1, fun one member => each one member.1⟩

theorem standsIn_analyzeNodes {source : String} {nodes : List Node}
    (parsed : parse source = .ok nodes) :
    (analyzer.analyzeNodes .empty nodes).StandsIn source := by
  have named : Scope.empty.Binds Scope.empty.names.keys := fun _ => Iff.rfl
  have drawn := drawnFrom_tokensInAll analyzer.filters nodes
  rw [← tokensOfOccurrences_under _ Scope.empty.names.keys] at drawn
  rw [analyzer.analyzeNodes_of_binds named]
  exact analyzer.standsIn_reportOf (standInOrder_of_parse parsed) drawn
    ((Occurrence.firsts_sublist _).trans List.filter_sublist)

/-- A template that has been read is analyzed, unless the check refuses it. -/
theorem analyzeChecked_of_parse {σ : Type} {check : String → StateM σ (Except String Unit)}
    {source : String} {nodes : List Node} (parsed : parse source = .ok nodes) (state : σ) :
    (analyzer.analyzeChecked check source state).1 =
      match (check source state).1 with
      | .ok () => ⟨analyzer.analyzeNodes .empty nodes, none⟩
      | .error message => .ofFault ⟨.rejected message, mentionedTagIn? message nodes⟩ := by
  simp only [analyzeChecked, parsed, bind, StateT.bind]
  rcases check source state with ⟨answer, state⟩
  cases answer <;> rfl

/-- However a template is checked, every variable of the report has a text that stands in the source
where it says, and the valid variables come in the order of the source, and the invalid ones too. -/
theorem analyzeChecked_standsIn {σ : Type} (check : String → StateM σ (Except String Unit))
    (source : String) (state : σ) :
    (analyzer.analyzeChecked check source state).1.report.StandsIn source := by
  cases parsed : parse source with
  | error fault =>
    have blamed : (analyzer.analyzeChecked check source state).1 = .ofFault fault := by
      simp only [analyzeChecked, parsed]
      rfl
    rw [blamed]
    refine Report.standsIn_ofFault fun token named => ?_
    obtain ⟨first, same, stands⟩ := standsIn_of_parse_error parsed
    obtain rfl := Option.some.inj (same.symm.trans named)
    exact stands
  | ok nodes =>
    rw [analyzer.analyzeChecked_of_parse parsed]
    split
    · exact analyzer.standsIn_analyzeNodes parsed
    · exact Report.standsIn_ofFault fun token named =>
        (standInOrder_of_parse parsed).standsIn token (mem_tokens_of_mentionedTagIn? named)

end Analyzer

end MessageTemplate.Analysis
