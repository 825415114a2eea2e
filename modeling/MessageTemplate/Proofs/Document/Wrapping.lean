import MessageTemplate.Document.Settled
import MessageTemplate.Document.Wrapping
import MessageTemplate.Proofs.Document.Nesting
import MessageTemplate.Proofs.Template.Base

/-! # The expressions of wrapped documents

The wrapping of a document, the test for an attribute that is there, and the reading of its expression
look at one text each in their own way. An output is read as the text inside
(`bareExpression_outputOf`), and any other text without what passes for marks of an output at its ends
(`bareExpression_of_not_occurs`). The two readings have the same base exactly if there are no such
marks, or none before the first bar (`trim_firstPart_withoutMarks`). Wrapping a document changes each of
its nodes on its own, so this is all that may come between the hints of a document and those of the
wrapped one. -/

namespace MessageTemplate.Document

open Text Json Template

/-! ## What passes for marks -/

/-- A text without the marks at its ends, all but the opening ones. -/
def withoutMarks (text : List Char) : List Char :=
  dropEndWhile (· = '-') ((dropRepeatedEnd outputClosing text).dropWhile (· = '-'))

/-- What is dropped at the start are copies of a text. -/
theorem exists_dropRepeated {needle : List Char} (full : needle ≠ []) (text : List Char) :
    ∃ copies, text = copies ++ dropRepeated needle text ∧ (∀ c ∈ copies, c ∈ needle) ∧
      (copies = [] ↔ ¬needle <+: text) := by
  fun_induction dropRepeated needle text with
  | case1 text empty => exact absurd (List.isEmpty_iff.mp empty) full
  | case2 text _ rest found ih =>
    obtain ⟨copies, whole, inside, -⟩ := ih
    have start := isPrefixOf?_eq_some found
    refine ⟨needle ++ copies, ?_, ?_, ?_⟩
    · rw [List.append_assoc, ← whole, start]
    · exact fun c member => (List.mem_append.mp member).elim id (inside c)
    · simp [full, start]
  | case3 text _ other =>
    have absent : ¬needle <+: text := by
      rintro ⟨rest, rfl⟩
      exact nomatch (isPrefixOf?_append needle rest).symm.trans other
    exact ⟨[], rfl, by simp, by simp [absent]⟩

/-- What is dropped at the end are copies of a text. -/
theorem exists_dropRepeatedEnd {needle : List Char} (full : needle ≠ []) (text : List Char) :
    ∃ copies, text = dropRepeatedEnd needle text ++ copies ∧ (∀ c ∈ copies, c ∈ needle) ∧
      (copies = [] ↔ ¬needle <:+ text) := by
  obtain ⟨copies, whole, inside, none⟩ :=
    exists_dropRepeated (mt List.reverse_eq_nil_iff.mp full) text.reverse
  refine ⟨copies.reverse, ?_, fun c member => ?_, ?_⟩
  · rw [dropRepeatedEnd, ← List.reverse_append, ← whole, List.reverse_reverse]
  · exact List.mem_reverse.mp (inside c (List.mem_reverse.mp member))
  · rw [List.reverse_eq_nil_iff, none, List.reverse_prefix]

theorem exists_dropEndWhile (p : Char → Bool) (text : List Char) :
    ∃ dropped, text = dropEndWhile p text ++ dropped ∧ (∀ c ∈ dropped, p c = true) ∧
      (dropped = [] ↔ ∀ c ∈ text.getLast?, p c = false) := by
  refine ⟨(text.reverse.takeWhile p).reverse, ?_, fun c member => ?_, ?_⟩
  · rw [dropEndWhile, ← List.reverse_append, List.takeWhile_append_dropWhile,
      List.reverse_reverse]
  · exact List.all_eq_true.mp List.all_takeWhile c (List.mem_reverse.mp member)
  · rw [List.reverse_eq_nil_iff, ← List.head?_reverse]
    cases text.reverse with
    | nil => simp
    | cons c rest => simp [List.takeWhile_cons]

/-- What passes for marks stands around the rest of a text: hyphens before it, and hyphens and closing
braces behind it. -/
theorem exists_withoutMarks (text : List Char) :
    ∃ opening closing, text = opening ++ withoutMarks text ++ closing ∧
      (∀ c ∈ opening, c = '-') ∧ (∀ c ∈ closing, c = '-' ∨ c = '\x7d') ∧
      (opening = [] ↔ text.head? ≠ some '-') ∧
      (opening = [] → (closing = [] ↔ text.getLast? ≠ some '-' ∧ ¬outputClosing <:+ text)) := by
  obtain ⟨copies, whole, braces, none⟩ :=
    @exists_dropRepeatedEnd outputClosing (by decide) text
  generalize inner : dropRepeatedEnd outputClosing text = inside at whole
  obtain ⟨dropped, rest, hyphens, last⟩ :=
    exists_dropEndWhile (· = '-') (inside.dropWhile (· = '-'))
  have marks : withoutMarks text = dropEndWhile (· = '-') (inside.dropWhile (· = '-')) := by
    rw [withoutMarks, inner]
  rw [← marks] at rest
  have start : inside = inside.takeWhile (· = '-') ++ withoutMarks text ++ dropped := by
    rw [List.append_assoc, ← rest, List.takeWhile_append_dropWhile]
  refine ⟨inside.takeWhile (· = '-'), dropped ++ copies, ?_, ?_, ?_, ?_, ?_⟩
  · rw [← List.append_assoc, ← start, ← whole]
  · exact fun c member => of_decide_eq_true (List.all_eq_true.mp List.all_takeWhile c member)
  · intro c member
    rcases List.mem_append.mp member with hyphen | brace
    · exact .inl (of_decide_eq_true (hyphens c hyphen))
    · exact .inr (by simpa [outputClosing] using braces c brace)
  · cases inside with
    | nil =>
      have other : text.head? ≠ some '-' := fun first => by
        rw [whole, List.nil_append] at first
        exact absurd (braces _ (List.mem_of_head? first)) (by decide)
      simp [other]
    | cons c rest => simp [whole, List.takeWhile_cons]
  · intro nothing
    have same : inside.dropWhile (· = '-') = inside := by
      have parts := @List.takeWhile_append_dropWhile _ (· = '-') inside
      rwa [nothing, List.nil_append] at parts
    rw [same] at last
    rw [List.append_eq_nil_iff, last, none]
    -- once no copies are dropped, what is left is the text itself
    constructor
    · rintro ⟨ends, notClosed⟩
      rw [none.mpr notClosed, List.append_nil] at whole
      exact ⟨fun hyphen => by simpa using ends '-' (whole ▸ hyphen), notClosed⟩
    · rintro ⟨ends, notClosed⟩
      rw [none.mpr notClosed, List.append_nil] at whole
      refine ⟨fun c given => decide_eq_false ?_, notClosed⟩
      rintro rfl
      exact ends (whole ▸ given)

/-- The base of a text is that of the text without its marks exactly if it reads as it stands. -/
theorem trim_firstPart_withoutMarks (text : List Char) :
    trim (firstPart (withoutMarks text)) = trim (firstPart text) ↔ ReadsAsIs text := by
  obtain ⟨opening, closing, whole, hyphens, braces, opens, closes⟩ := exists_withoutMarks text
  generalize withoutMarks text = inside at whole
  have absent : '|' ∉ closing := fun member => by
    rcases braces _ member with same | same <;> exact absurd same (by decide)
  rw [ReadsAsIs, ← opens]
  cases opening with
  | cons c rest =>
    -- the hyphens in front are in the base of the text alone
    refine iff_of_false (fun same => ?_) (by simp)
    have counted := congrArg (List.count '-') same
    have isSealed : Sealed '|' 0 (c :: rest) := .of_all fun d member =>
      hyphens d member ▸ ⟨by decide, by decide⟩
    obtain rfl : c = '-' := hyphens c List.mem_cons_self
    rw [count_trim (by decide), count_trim (by decide), whole, List.append_assoc,
      firstPart_sealed isSealed, List.count_append, firstPart_append absent,
      List.count_cons_self] at counted
    split at counted
    · omega
    · rw [List.count_append] at counted
      omega
  | nil =>
    rw [← closes rfl, whole, List.nil_append, length_splitTopLevel_append absent,
      firstPart_append absent]
    split
    · next many => simp [many]
    · next single =>
      simp only [single, or_false, true_and]
      constructor
      · -- a mark behind the last part would be in the base of the text alone
        intro same
        have counted (mark : Char) (dark : isBlank mark = false) : closing.count mark = 0 := by
          have counts := congrArg (List.count mark) same
          rw [count_trim dark, count_trim dark, List.count_append] at counts
          omega
        refine List.eq_nil_iff_forall_not_mem.mpr fun c member => ?_
        rcases braces c member with rfl | rfl
        · exact List.count_eq_zero.mp (counted _ (by decide)) member
        · exact List.count_eq_zero.mp (counted _ (by decide)) member
      · rintro rfl
        rw [List.append_nil]

/-! ## Reading an attribute -/

/-- An output is read as the text inside. -/
theorem bareExpression_outputOf (text : String) :
    bareExpression (outputOf text) = (splitFilters text).1 := by
  have last : (' ' :: (text.toList ++ [' '])).getLast? = some ' ' := by
    rw [← List.cons_append, List.getLast?_concat]
  have tight : Tight (outputOpening ++ (' ' :: (text.toList ++ [' ']) ++ outputClosing)) := by
    have brace : (outputOpening ++ (' ' :: (text.toList ++ [' ']) ++ outputClosing)).getLast? =
        some '\x7d' := by
      rw [List.getLast?_append, List.getLast?_append]
      rfl
    constructor
    · rintro c ⟨rfl⟩
      decide
    · rw [brace]
      rintro c ⟨rfl⟩
      decide
  have opened : dropRepeated outputOpening (' ' :: (text.toList ++ [' ']) ++ outputClosing) =
      ' ' :: (text.toList ++ [' ']) ++ outputClosing :=
    dropRepeated_eq_self (by rintro c ⟨rfl⟩; decide)
  have closed : dropRepeated outputClosing.reverse (' ' :: (text.toList ++ [' '])).reverse =
      (' ' :: (text.toList ++ [' '])).reverse := by
    refine dropRepeated_eq_self ?_
    rw [List.head?_reverse, last]
    rintro c ⟨rfl⟩
    decide
  have ends : dropEndWhile (· = '-') (' ' :: (text.toList ++ [' '])) =
      ' ' :: (text.toList ++ [' ']) := by
    refine dropEndWhile_eq_self ?_
    rw [last]
    rintro c ⟨rfl⟩
    decide
  rw [bareExpression, toList_outputOf, trim_eq_self tight, dropRepeated_append, opened,
    dropRepeatedEnd, List.reverse_append, dropRepeated_append, closed, List.reverse_reverse,
    List.dropWhile_cons_of_neg (by decide), ends, splitFilters_fst, String.toList_ofList,
    splitFilters_fst]
  exact congrArg String.ofList (trim_firstPart_gaps text.toList isGap_space isGap_space)

/-- Without an opening, the marks of an attribute are those at its ends. -/
theorem bareExpression_of_not_occurs {text : String}
    (absent : occurs outputOpening text.toList = false) :
    bareExpression text =
      String.ofList (trim (firstPart (withoutMarks (trim text.toList)))) := by
  obtain ⟨gap, other, whole, -, -⟩ := exists_trim text.toList
  have parts : Parts '\x7b' '\x7b' (trim text.toList) := by
    have all := parts_iff.mpr (Bool.eq_false_iff.mp absent)
    rw [whole] at all
    exact (parts_append.mp (parts_append.mp all).1).2.1
  have opens : ¬outputOpening <+: trim text.toList := by
    rintro ⟨rest, start⟩
    rw [← start] at parts
    exact parts_iff.mp (parts_append.mp parts).1 (by decide)
  obtain ⟨copies, same, -, none⟩ :=
    @exists_dropRepeated outputOpening (by decide) (trim text.toList)
  rw [none.mpr opens, List.nil_append] at same
  rw [bareExpression, ← same, ← withoutMarks, splitFilters_fst, String.toList_ofList]

/-- Once it is wrapped, an attribute that is not blank names the same expression exactly if it reads as
it stands. -/
theorem bareExpression_outputOf_iff {text : String}
    (absent : occurs outputOpening text.toList = false) :
    bareExpression (outputOf text) = bareExpression text ↔ ReadsAsIs (trim text.toList) := by
  obtain ⟨gap, other, whole, isGap, also⟩ := exists_trim text.toList
  have base : trim (firstPart text.toList) = trim (firstPart (trim text.toList)) := by
    conv_lhs => rw [whole]
    exact trim_firstPart_gaps _ isGap also
  rw [bareExpression_outputOf, splitFilters_fst, bareExpression_of_not_occurs absent, base,
    String.ofList_inj, eq_comm]
  exact trim_firstPart_withoutMarks _

/-! ## Attributes of a wrapped node -/

/-- A text that is a flag of itself, wrapped. -/
def wrappedText (text : String) : String :=
  if text = "" ∨ occurs outputOpening text.toList = true then text else outputOf text

/-- The value of an attribute that is a flag of itself, wrapped. -/
def wrappedValue : Json → Json
  | .string text => .string (wrappedText text)
  | value => value

variable {phraseNamespace key : String} {node document : Node}

theorem get?_applyPair_own {kind : String} (given attrs : Keyed Json)
    (own : key ∈ [Node.showKey, Node.eachKey]) :
    Keyed.get? key ((OutputPolicy.standard phraseNamespace).applyPair kind given attrs ⟨key, key⟩) =
      (Keyed.get? key attrs).map wrappedValue := by
  have wraps (value : String) :
      (OutputPolicy.standard phraseNamespace).wraps kind key value = true := by
    have other : key ≠ "text" := by
      rintro rfl
      exact absurd own (by decide)
    simp [OutputPolicy.standard, other]
  have clears : (OutputPolicy.standard phraseNamespace).clears key = false := by
    have kept : key ∈ firstClassFlags := List.mem_cons_of_mem _ own
    simp [OutputPolicy.standard, kept]
  have output (text : String) : attributeOutput given key text = outputOf text := by
    have other : key ≠ "id" := by
      rintro rfl
      exact absurd own (by decide)
    rw [attributeOutput, if_neg other]
    rfl
  simp only [OutputPolicy.applyPair, wraps, clears, output, nonemptyText?]
  cases held : Keyed.get? key attrs with
  | none => simp [isSet, held]
  | some value =>
    cases value with
    | string text =>
      by_cases empty : text = ""
      · simp [isSet, held, wrappedValue, wrappedText, empty]
      · by_cases opened : occurs outputOpening text.toList = true
        · simp [isSet, held, wrappedValue, wrappedText, empty, Json.string?, Option.filter, opened]
        · simp [isSet, wrappedValue, wrappedText, empty, Json.string?, Option.filter, opened]
    | null | bool | number | array | object =>
      simp [isSet, held, wrappedValue, Json.string?]

/-- Pairs that do not touch each other wrap an attribute that is a flag of itself. -/
theorem get?_foldl_applyPair_own {kind : String} {given attrs : Keyed Json}
    {pairs : List AttributePair} (apart : pairs.Pairwise AttributePair.Apart)
    (listed : ⟨key, key⟩ ∈ pairs) (own : key ∈ [Node.showKey, Node.eachKey]) :
    Keyed.get? key
        (pairs.foldl ((OutputPolicy.standard phraseNamespace).applyPair kind given) attrs) =
      (Keyed.get? key attrs).map wrappedValue := by
  obtain ⟨before, same, result⟩ := exists_applyPair_of_mem apart listed
  rw [result key List.mem_cons_self, get?_applyPair_own given before own,
    same key List.mem_cons_self]

/-- Wrapping puts an output in the place of a condition and a collection. -/
theorem attr?_wrapOutputs_own (own : key ∈ [Node.showKey, Node.eachKey]) :
    (wrapOutputs phraseNamespace node).attr? key = (node.attr? key).map wrappedValue := by
  have listed : ⟨key, key⟩ ∈ node.classify.pairs ++ commonPairs := by
    refine List.mem_append_right _ ?_
    rcases List.mem_pair.mp own with rfl | rfl
    · exact List.mem_cons_self
    · exact List.mem_cons_of_mem _ List.mem_cons_self
  rw [attr?_wrapOutputs, Node.attr?]
  cases node.attrs with
  | none => rfl
  | some attrs => exact get?_foldl_applyPair_own (pairwise_apart _) listed own

theorem strAttr?_of_string {text : String} (held : node.attr? key = some (.string text)) :
    node.strAttr? key = if text.toList.all isBlank then none else some text := by
  rw [Node.strAttr?, held]
  cases blank : text.toList.all isBlank <;> simp [Json.string?, Option.filter, blank]

/-- An attribute that is no text is never read, wrapped or not. -/
theorem strAttr?_wrapOutputs_of_other (own : key ∈ [Node.showKey, Node.eachKey])
    (other : ∀ text, node.attr? key ≠ some (.string text)) :
    (wrapOutputs phraseNamespace node).strAttr? key = none ∧ node.strAttr? key = none := by
  rw [Node.strAttr?, Node.strAttr?, attr?_wrapOutputs_own own]
  cases held : node.attr? key with
  | none => exact ⟨rfl, rfl⟩
  | some value =>
    cases value with
    | string text => exact absurd held (other text)
    | null | bool | number | array | object => exact ⟨rfl, rfl⟩

theorem isBlank_outputOf (text : String) : (outputOf text).toList.all isBlank = false := by
  rw [toList_outputOf]
  rfl

theorem dark_of_occurs {text : List Char} (opened : occurs outputOpening text = true) :
    text.all isBlank = false := by
  refine Bool.eq_false_iff.mpr fun blank => ?_
  have absent : '\x7b' ∉ text := fun member =>
    ne_of_isBlank (List.all_eq_true.mp blank _ member) '\x7b' (by decide) rfl
  exact parts_iff.mp (parts_of_not_mem absent) opened

section Held

variable {text : String} (own : key ∈ [Node.showKey, Node.eachKey])
  (held : node.attr? key = some (.string text))
include own held

/-- What is read of a wrapped text: the text as it was if it was empty or held an output, and an output
otherwise. -/
theorem strAttr?_wrapOutputs_of_string :
    (wrapOutputs phraseNamespace node).strAttr? key =
      if text = "" ∨ occurs outputOpening text.toList = true then node.strAttr? key
      else some (outputOf text) := by
  have wrapped : (wrapOutputs phraseNamespace node).attr? key =
      some (.string (wrappedText text)) := by
    rw [attr?_wrapOutputs_own own, held]
    rfl
  rw [strAttr?_of_string wrapped, strAttr?_of_string held, wrappedText]
  split
  · rfl
  · rw [isBlank_outputOf]
    rfl

theorem isSome_strAttr?_wrapOutputs_iff :
    ((wrapOutputs phraseNamespace node).strAttr? key).isSome = (node.strAttr? key).isSome ↔
      KeepsPresence text := by
  rw [strAttr?_wrapOutputs_of_string own held, strAttr?_of_string held, KeepsPresence]
  split
  · next kept =>
    rcases kept with rfl | opened
    · simp
    · simp [dark_of_occurs opened]
  · next wrapped =>
    have full : text ≠ "" := fun empty => wrapped (.inl empty)
    cases blank : text.toList.all isBlank <;> simp [full]

theorem map_bareExpression_wrapOutputs_iff :
    ((wrapOutputs phraseNamespace node).strAttr? key).map bareExpression =
        (node.strAttr? key).map bareExpression ↔
      KeepsExpression text := by
  rw [strAttr?_wrapOutputs_of_string own held, KeepsExpression, ← or_assoc]
  split
  · next kept => simp [kept]
  · next wrapped =>
    have absent : occurs outputOpening text.toList = false :=
      Bool.eq_false_iff.mpr fun opened => wrapped (.inr opened)
    rw [strAttr?_of_string held]
    cases blank : text.toList.all isBlank with
    | true => simp [wrapped]
    | false => simp [wrapped, bareExpression_outputOf_iff absent]

end Held

/-! ## Wrapped trees -/

mutual

/-- The nodes of a wrapped document are those of the document, wrapped. -/
theorem descendants_apply (policy : OutputPolicy) : (node : Node) →
    (policy.apply node).descendants = node.descendants.map policy.apply
  | ⟨kind, attrs, marks, content, text, extra⟩ => by
    rw [apply_eq]
    cases content with
    | none => simp [Node.descendants]
    | some children => simpa [Node.descendants] using descendantsOfAll_map_apply policy children

theorem descendantsOfAll_map_apply (policy : OutputPolicy) : (nodes : List Node) →
    descendantsOfAll (nodes.map policy.apply) = (descendantsOfAll nodes).map policy.apply
  | [] => by simp [descendantsOfAll]
  | node :: rest => by
    rw [List.map_cons, descendantsOfAll, descendantsOfAll, descendants_apply policy node,
      descendantsOfAll_map_apply policy rest, List.map_cons, List.map_append]

end

theorem reachable_wrapOutputs : (wrapOutputs phraseNamespace document).reachable =
    document.reachable.map (wrapOutputs phraseNamespace) := by
  rw [Node.reachable, Node.reachable, List.map_cons, wrapOutputs, descendants_apply]
  rfl

mutual

/-- Hints are gathered from the nodes that are reached through content, in their order. -/
theorem gatherHints_eq_foldl (iterations : Nat) : (hints : Hints) → (node : Node) →
    gatherHints iterations hints node =
      node.reachable.foldl (fun hints found => hints.addNode iterations found) hints
  | hints, ⟨kind, attrs, marks, content, text, extra⟩ => by
    rw [Node.reachable, List.foldl_cons]
    cases content with
    | none => simp [gatherHints, Node.descendants]
    | some children =>
      simp only [gatherHints, Node.descendants]
      exact gatherAllHints_eq_foldl iterations _ children

theorem gatherAllHints_eq_foldl (iterations : Nat) : (hints : Hints) → (nodes : List Node) →
    gatherAllHints iterations hints nodes =
      (descendantsOfAll nodes).foldl (fun hints found => hints.addNode iterations found) hints
  | hints, [] => by simp [gatherAllHints, descendantsOfAll]
  | hints, node :: rest => by
    rw [gatherAllHints, gatherHints_eq_foldl iterations hints node,
      gatherAllHints_eq_foldl iterations _ rest, descendantsOfAll, Node.reachable,
      ← List.cons_append, List.foldl_append]

end

/-- Of its collection and its condition, a node tells only the expressions. -/
theorem addNode_congr {left right : Node} (hints : Hints) (iterations : Nat)
    (each : left.each?.map bareExpression = right.each?.map bareExpression)
    (shown : left.showCondition?.map bareExpression = right.showCondition?.map bareExpression)
    (limited : left.iterations? = right.iterations?) :
    hints.addNode iterations left = hints.addNode iterations right := by
  have told (node : Node) : hints.addNode iterations node =
      let arrays := (node.each?.map bareExpression).elim hints fun path =>
        hints.addArray path (node.iterations?.getD iterations)
      (node.showCondition?.map bareExpression).elim arrays arrays.addFlag := by
    rw [Hints.addNode]
    cases node.each? <;> cases node.showCondition? <;>
      simp only [Option.map_none, Option.map_some, Option.elim_none, Option.elim_some]
  rw [told, told, each, shown, limited]

/-- An attribute is read in a wrapped node as it was, if it is no text. -/
theorem iff_of_texts {read : Prop} {good : String → Prop}
    (other : (∀ text, node.attr? key ≠ some (.string text)) → read)
    (held : ∀ text, node.attr? key = some (.string text) → (read ↔ good text)) :
    read ↔ ∀ text, node.attr? key = some (.string text) → good text := by
  by_cases given : ∃ text, node.attr? key = some (.string text)
  · obtain ⟨text, given⟩ := given
    rw [held text given, given]
    simp
  · have none := not_exists.mp given
    exact iff_of_true (other none) fun text given => absurd given (none text)

/-- The nodes that are reached in a wrapped document are those of the document, wrapped. A condition or a
collection is there before and after exactly if it is not blank or is empty, and names the same expression
exactly if it is empty, holds an output already, or is not blank and reads as it stands. If all of them do,
the hints of the document are those of the wrapped one. -/
theorem wrapOutputs_keeps_iff (phraseNamespace : String) (document : Node) :
    (wrapOutputs phraseNamespace document).reachable =
        document.reachable.map (wrapOutputs phraseNamespace) ∧
      (∀ node ∈ document.reachable, ∀ key ∈ [Node.showKey, Node.eachKey],
        (((wrapOutputs phraseNamespace node).strAttr? key).isSome = (node.strAttr? key).isSome ↔
          ∀ text, node.attr? key = some (.string text) → KeepsPresence text) ∧
        (((wrapOutputs phraseNamespace node).strAttr? key).map bareExpression =
            (node.strAttr? key).map bareExpression ↔
          ∀ text, node.attr? key = some (.string text) → KeepsExpression text)) ∧
      ((∀ node ∈ document.reachable, ∀ key ∈ [Node.showKey, Node.eachKey],
          ∀ text, node.attr? key = some (.string text) → KeepsExpression text) →
        ∀ iterations, hintsOf (wrapOutputs phraseNamespace document) iterations =
          hintsOf document iterations) := by
  have expressions {node : Node} {key : String} (own : key ∈ [Node.showKey, Node.eachKey]) :
      ((wrapOutputs phraseNamespace node).strAttr? key).map bareExpression =
          (node.strAttr? key).map bareExpression ↔
        ∀ text, node.attr? key = some (.string text) → KeepsExpression text := by
    refine iff_of_texts (fun other => ?_) fun _ => map_bareExpression_wrapOutputs_iff own
    obtain ⟨wrapped, plain⟩ := strAttr?_wrapOutputs_of_other own other
    rw [wrapped, plain]
  refine ⟨reachable_wrapOutputs, fun node _ key own => ⟨?_, expressions own⟩, ?_⟩
  · refine iff_of_texts (fun other => ?_) fun _ => isSome_strAttr?_wrapOutputs_iff own
    obtain ⟨wrapped, plain⟩ := strAttr?_wrapOutputs_of_other own other
    rw [wrapped, plain]
  · intro kept iterations
    rw [hintsOf, hintsOf, gatherHints_eq_foldl, gatherHints_eq_foldl, reachable_wrapOutputs,
      List.foldl_map]
    refine List.foldl_ext _ _ _ fun hints node member => ?_
    have each := (expressions (by simp)).mpr (kept node member Node.eachKey (by simp))
    have shown := (expressions (by simp)).mpr (kept node member Node.showKey (by simp))
    exact addNode_congr hints iterations each shown iterations?_wrapOutputs

/-- A node with a collection and a condition. -/
def repeatedIf (collection condition : String) : Node :=
  ((Node.ofKind "repeat").withAttr Node.eachKey (.string collection)).withAttr Node.showKey
    (.string condition)

theorem wrapOutputs_keeps_filtered :
    hintsOf (wrapOutputs "t" (repeatedIf "payload.items | sort: 'at-'" "payload.is-open")) 3 =
      ⟨[⟨"payload.items", 3⟩], ["payload.is-open"]⟩ := by
  have kept : ∀ node ∈ (repeatedIf "payload.items | sort: 'at-'" "payload.is-open").reachable,
      ∀ key ∈ [Node.showKey, Node.eachKey],
        ∀ text, node.attr? key = some (.string text) → KeepsExpression text := by
    intro node member key own text held
    obtain rfl := List.mem_singleton.mp member
    rcases List.mem_pair.mp own with rfl | rfl
    · obtain rfl := Json.string.inj (Option.some.inj held)
      decide +kernel
    · obtain rfl := Json.string.inj (Option.some.inj held)
      decide +kernel
  obtain ⟨-, -, hints⟩ :=
    wrapOutputs_keeps_iff "t" (repeatedIf "payload.items | sort: 'at-'" "payload.is-open")
  rw [hints kept]
  decide +kernel

/-- A blank condition comes up, and what passes for marks at the ends of a collection comes back. -/
theorem wrapOutputs_changes_expressions :
    (repeatedIf "payload.items-" " ").showCondition? = none ∧
      (wrapOutputs "t" (repeatedIf "payload.items-" " ")).showCondition?.isSome ∧
      (repeatedIf "payload.items-" " ").each?.map bareExpression = some "payload.items" ∧
      (wrapOutputs "t" (repeatedIf "payload.items-" " ")).each?.map bareExpression =
        some "payload.items-" ∧
      (repeatedIf "-payload.items" "").each?.map bareExpression = some "payload.items" ∧
      (wrapOutputs "t" (repeatedIf "-payload.items" "")).each?.map bareExpression =
        some "-payload.items" ∧
      (repeatedIf "payload.items\x7d\x7d" "").each?.map bareExpression = some "payload.items" ∧
      (wrapOutputs "t" (repeatedIf "payload.items\x7d\x7d" "")).each?.map bareExpression =
        some "payload.items\x7d\x7d" := by
  decide +kernel

end MessageTemplate.Document
