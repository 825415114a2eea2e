import MessageTemplate.Proofs.Document.Insertion
import MessageTemplate.Proofs.Document.Outputs

/-! # Chains of repeats, indexed and wrapped

A chain stays a chain when a position is put behind the collection that it leads on from
(`Nested.index`) and when its paths are wrapped into outputs (`Nested.apply`). -/

namespace MessageTemplate.Document

open Text Json

/-! ## Chains with a position -/

section Index

variable {each id : Frame} {path more : List Char} (steady : IsSteady path) (clear : id.IsClear)
include steady clear

theorem IsVariable.index {node : Node} (given : IsVariable id (path ++ more) node)
    (leads : more.head? = some '.') (alone : ¬path <:+: more ++ id.tail) (position : Nat) :
    IsVariable id (path ++ indexText position ++ more)
      (indexPaths (String.ofList path) position node) where
  kind := by rw [indexPaths_eq]; exact given.kind
  id := by
    have listed : "id" ∈ node.indexedAttributes := by
      rw [Node.indexedAttributes, Node.classify, given.kind]
      decide
    rw [attr?_indexPaths listed, given.id]
    exact congrArg (fun text => some (Json.string text))
      (insertIndex_around steady clear leads alone position)
  shown := by
    rw [attr?_indexPaths (by simp [Node.indexedAttributes]), given.shown]
    rfl
  single := by
    rw [attr?_indexPaths (by simp [Node.indexedAttributes]), given.single]
    rfl
  leaf := by rw [children_indexPaths, given.leaf, List.map_nil]

/-- A chain leads on behind a position if the path before that occurs nowhere else in the chain. -/
theorem Nested.index (bare : each.IsBare) {names : List (List Char)} {limits : List (Option Nat)}
    {innermost node : Node} (nested : Nested each id (path ++ more) names limits innermost node)
    (leads : more.head? = some '.') (alone : ¬path <:+: more ++ dotted names ++ id.tail)
    (position : Nat) :
    ∃ shown, Nested each id (path ++ indexText position ++ more) names limits shown
      (indexPaths (String.ofList path) position node) := by
  generalize whole : path ++ more = start at nested
  induction nested generalizing more with
  | leaf given =>
    subst whole
    exact ⟨_, .leaf (given.index steady clear leads (by simpa [dotted] using alone) position)⟩
  | @repeated start name names limit limits innermost inner node collection shown limited content _
      ih =>
    subst whole
    have leadsOn : (more ++ '.' :: name).head? = some '.' := by simp [leads]
    obtain ⟨indexed, further⟩ := ih leadsOn (by simpa [dotted] using alone) (by simp)
    have full : path ≠ [] := by
      obtain ⟨c, first, -⟩ := steady.starts
      rintro rfl
      cases first
    have closes : ∀ c ∈ each.tail, c ∉ path := fun c member =>
      steady.not_mem (bare.closes c member)
    have apart : ¬path <:+: more ++ each.tail := fun inside =>
      alone ((infix_of_infix_append full closes inside).trans
        ⟨[], dotted (name :: names) ++ id.tail, by simp⟩)
    refine ⟨indexed, .repeated ?_ ?_ ?_ ?_ (by simpa using further)⟩
    · rw [attr?_indexPaths (by simp [Node.indexedAttributes]), collection]
      exact congrArg (fun text => some (Json.string text))
        (insertIndex_around steady bare.toIsClear leads apart position)
    · rw [attr?_indexPaths (by simp [Node.indexedAttributes]), shown]
      rfl
    · rw [iterations?_indexPaths, limited]
    · rw [indexPaths_eq, content]
      rfl

end Index

/-! ## Wrapped chains -/

section Wrapped

variable {policy : OutputPolicy}

/-- Pairs leave an attribute alone that is not set and is its own flag. -/
theorem get?_foldl_applyPair_of_unset {kind key : String} {given attrs : Keyed Json}
    {pairs : List AttributePair} (unset : isSet (Keyed.get? key attrs) = false)
    (own : ∀ pair ∈ pairs, key ∈ pair.touched → pair.flag = key) :
    Keyed.get? key (pairs.foldl (policy.applyPair kind given) attrs) = Keyed.get? key attrs := by
  induction pairs generalizing attrs with
  | nil => rfl
  | cons pair rest ih =>
    obtain ⟨first, others⟩ := List.forall_mem_cons.mp own
    have kept : Keyed.get? key (policy.applyPair kind given attrs pair) = Keyed.get? key attrs := by
      by_cases touched : key ∈ pair.touched
      · rw [OutputPolicy.applyPair, first touched, unset]
        rfl
      · exact get?_applyPair_of_ne touched
    rw [List.foldl_cons, ih (by rw [kept]; exact unset) others, kept]

variable {phraseNamespace key : String} {node : Node}

theorem attr?_wrapOutputs :
    (wrapOutputs phraseNamespace node).attr? key = node.attrs.bind fun attrs =>
      Keyed.get? key ((OutputPolicy.standard phraseNamespace).applyAttrs node.kind attrs) := by
  rw [wrapOutputs, apply_eq, Node.attr?]
  cases node.attrs <;> rfl

/-- An attribute that is a flag of itself is wrapped. -/
theorem attr?_wrapOutputs_self {path : String}
    (listed : ⟨key, key⟩ ∈ node.classify.pairs ++ commonPairs) (kept : key ∈ firstClassFlags)
    (held : node.attr? key = some (.string path)) (full : path ≠ "") (inert : IsInert path) :
    (wrapOutputs phraseNamespace node).attr? key =
      some (.string (attributeOutput (node.attrs.getD []) key path)) := by
  obtain ⟨attrs, given, value⟩ := Option.bind_eq_some_iff.mp held
  have flagged : isSet (Keyed.get? key attrs) = true := by simp [value, isSet, full]
  have plain : key ≠ "text" := by
    rintro rfl
    exact absurd kept (by decide)
  have wraps : (OutputPolicy.standard phraseNamespace).wraps node.kind key path = true := by
    simp [OutputPolicy.standard, plain]
  have clears : (OutputPolicy.standard phraseNamespace).clears key = false := by
    simp [OutputPolicy.standard, kept]
  rw [attr?_wrapOutputs, given]
  exact @get?_foldl_applyPair _ _ path _ _ _ ⟨key, key⟩ (pairwise_apart _) listed flagged value full
    wraps inert fun _ => clears

/-- An attribute that is not there and is its own flag does not come up. -/
theorem attr?_wrapOutputs_of_none
    (own : ∀ pair ∈ node.classify.pairs ++ commonPairs, key ∈ pair.touched → pair.flag = key)
    (absent : node.attr? key = none) : (wrapOutputs phraseNamespace node).attr? key = none := by
  rw [attr?_wrapOutputs]
  cases given : node.attrs with
  | none => rfl
  | some attrs =>
    rw [Node.attr?, given] at absent
    have unset : isSet (Keyed.get? key attrs) = false := by
      rw [show Keyed.get? key attrs = none from absent]
      rfl
    exact (get?_foldl_applyPair_of_unset unset own).trans absent

theorem iterations?_wrapOutputs :
    (wrapOutputs phraseNamespace node).iterations? = node.iterations? := by
  have untouched : ∀ pair ∈ node.classify.pairs ++ commonPairs, "iterations" ∉ pair.touched := by
    cases node.classify <;> decide
  have same : (wrapOutputs phraseNamespace node).attr? "iterations" = node.attr? "iterations" := by
    rw [attr?_wrapOutputs, Node.attr?]
    cases node.attrs with
    | none => rfl
    | some attrs => exact get?_foldl_applyPair_of_ne untouched
  rw [Node.iterations?, same, Node.iterations?]

theorem children_wrapOutputs : (wrapOutputs phraseNamespace node).children =
    node.children.map (wrapOutputs phraseNamespace) := by
  rw [wrapOutputs, apply_eq, Node.children, Node.children]
  cases node.content <;> rfl

theorem own_flags (kind : Kind) : ∀ key ∈ [Node.showKey, Node.eachKey],
    ∀ pair ∈ kind.pairs ++ commonPairs, key ∈ pair.touched → pair.flag = key := by
  cases kind <;> decide

end Wrapped

theorem IsSteady.ne_empty {path : List Char} (steady : IsSteady path) :
    String.ofList path ≠ "" := by
  obtain ⟨c, first, -⟩ := steady.starts
  intro empty
  have := congrArg String.toList empty
  rw [String.toList_ofList] at this
  rw [this] at first
  cases first

theorem IsSteady.isInert {path : List Char} (steady : IsSteady path) :
    IsInert (String.ofList path) := by
  refine isInert_iff.mpr fun first second given => ?_
  have other : isStepChar first = false := by
    obtain rfl | rfl | rfl : first = '\x7b' ∨ first = '\x7d' ∨ first = '%' := by
      simpa [delimiterChars] using (mem_delimiterChars given).1
    all_goals decide
  rw [String.toList_ofList]
  exact parts_of_not_mem (steady.not_mem other)

theorem wrapOutput_eq_around (path : List Char) (fallback : Option String) :
    wrapOutput (String.ofList path) fallback = (Frame.output fallback).around path := by
  rw [wrapOutput, Frame.around, Frame.output]
  cases fallback.filter (· ≠ "") with
  | none => simp [outputOf]
  | some fallback => simp [outputOf]

section Chains

variable {path : List Char} {names : List (List Char)} {limits : List (Option Nat)}
  {innermost node : Node} (phraseNamespace : String)

theorem IsVariable.wrap (given : IsVariable .bare path node) (steady : IsSteady path)
    (own : HasOwnName node) :
    IsVariable (.output ((node.attr? "fallback").bind Json.string?)) path
      (wrapOutputs phraseNamespace node) where
  kind := by rw [wrapOutputs, apply_eq]; exact given.kind
  id := by
    have held : node.attr? "id" = some (.string (String.ofList path)) := by
      simpa [Frame.around, Frame.bare] using given.id
    have listed : ⟨"id", "id"⟩ ∈ node.classify.pairs ++ commonPairs := by
      rw [Node.classify, given.kind]
      decide
    have name : (nonemptyText? (node.attrs.getD []) "aliasFor").getD (String.ofList path) =
        String.ofList path := by
      cases other : nonemptyText? (node.attrs.getD []) "aliasFor" with
      | none => rfl
      | some name =>
        obtain ⟨attrs, present, -⟩ := Option.bind_eq_some_iff.mp held
        rw [present] at other
        have found : node.attr? "aliasFor" = some (.string name) := by
          rw [Node.attr?, present]
          exact get?_of_nonemptyText? other
        rcases own name found with rfl | same
        · exact absurd (Option.filter_eq_some_iff.mp other).2 (by simp)
        · exact Json.string.inj (Option.some.inj (same.symm.trans held))
    rw [attr?_wrapOutputs_self listed (by decide) held steady.ne_empty steady.isInert,
      attributeOutput, if_pos rfl, name, wrapOutput_eq_around, Node.attr?]
    cases node.attrs <;> rfl
  shown := attr?_wrapOutputs_of_none (own_flags _ _ (by simp)) given.shown
  single := attr?_wrapOutputs_of_none (own_flags _ _ (by simp)) given.single
  leaf := by rw [children_wrapOutputs, given.leaf, List.map_nil]

theorem Nested.wrap (nested : Nested .bare .bare path names limits innermost node)
    (steady : IsSteady path) (identifiers : ∀ name ∈ names, isIdentifier name = true)
    (own : HasOwnName innermost) :
    Nested (.output none) (.output ((innermost.attr? "fallback").bind Json.string?)) path names
      limits (wrapOutputs phraseNamespace innermost) (wrapOutputs phraseNamespace node) := by
  induction nested with
  | leaf given => exact .leaf (given.wrap phraseNamespace steady own)
  | @repeated path name names limit limits innermost inner node collection shown limited content _
      ih =>
    obtain ⟨first, others⟩ := List.forall_mem_cons.mp identifiers
    have held : node.attr? Node.eachKey = some (.string (String.ofList path)) := by
      simpa [Frame.around, Frame.bare] using collection
    refine .repeated ?_ ?_ ?_ ?_ (ih (steady.property first) others own)
    · rw [attr?_wrapOutputs_self (by simp [commonPairs]) (by decide) held steady.ne_empty
        steady.isInert, attributeOutput, if_neg (by decide), wrapOutput_eq_around]
    · exact attr?_wrapOutputs_of_none (own_flags _ _ (by simp)) shown
    · rw [iterations?_wrapOutputs, limited]
    · rw [wrapOutputs, apply_eq, content]
      rfl

/-- In each form of the document, a chain is one with the frames of the form. -/
theorem Nested.apply (form : Form) (nested : Nested .bare .bare path names limits innermost node)
    (steady : IsSteady path) (identifiers : ∀ name ∈ names, isIdentifier name = true)
    (own : form = .written ∨ HasOwnName innermost) :
    Nested form.eachFrame (form.frame innermost) path names limits (form.apply innermost)
      (form.apply node) := by
  cases form with
  | written => exact nested
  | wrapped phraseNamespace =>
    exact nested.wrap phraseNamespace steady identifiers (own.resolve_left fun same => nomatch same)

end Chains

end MessageTemplate.Document
