import MessageTemplate.Proofs.Document.Nesting
import MessageTemplate.Proofs.Document.Places

/-! # Chains of repeats, unrolled

A repeat at the top of a chain is replaced by copies of the chain in it, each with a position put in. By
induction on the depth, a variable is left for each tuple of positions, in lexicographic order
(`comesTo_replaceChild_nested`). In a document the texts of these variables stand in the place of the
chain (`prepare_nested`). -/

namespace MessageTemplate.Document

open Preparing

/-! ## Tuples of positions -/

section Tuples

variable {bound : List Nat → Nat}

/-- The tuples of some length with positions below the bounds, in lexicographic order. -/
def tuplesBelow (bound : List Nat → Nat) : (length : Nat) → List (List Nat)
  | 0 => [[]]
  | length + 1 => (List.range (bound [])).flatMap fun position =>
      (tuplesBelow (fun inner => bound (position :: inner)) length).map (position :: ·)

theorem below_nil : Below bound [] := by
  rintro outer position inner whole
  cases outer <;> cases whole

theorem below_cons {position : Nat} {rest : List Nat} : Below bound (position :: rest) ↔
    position < bound [] ∧ Below (fun inner => bound (position :: inner)) rest := by
  constructor
  · intro given
    exact ⟨given [] position rest rfl, fun outer next inner whole =>
      given (position :: outer) next inner (congrArg (position :: ·) whole)⟩
  · rintro ⟨first, others⟩ outer next inner whole
    cases outer with
    | nil =>
      obtain ⟨rfl, -⟩ := List.cons.inj whole
      exact first
    | cons start outer =>
      obtain ⟨rfl, parts⟩ := List.cons.inj whole
      exact others outer next inner parts

theorem mem_tuplesBelow {length : Nat} {tuple : List Nat} :
    tuple ∈ tuplesBelow bound length ↔ tuple.length = length ∧ Below bound tuple := by
  induction length generalizing bound tuple with
  | zero =>
    rw [tuplesBelow, List.mem_singleton, List.length_eq_zero_iff]
    exact ⟨fun empty => ⟨empty, empty ▸ below_nil⟩, And.left⟩
  | succ length ih =>
    simp only [tuplesBelow, List.mem_flatMap, List.mem_range, List.mem_map, ih]
    constructor
    · rintro ⟨position, low, rest, ⟨counted, below⟩, rfl⟩
      exact ⟨by rw [List.length_cons, counted], below_cons.mpr ⟨low, below⟩⟩
    · rintro ⟨counted, below⟩
      cases tuple with
      | nil => cases counted
      | cons position rest =>
        obtain ⟨low, below⟩ := below_cons.mp below
        exact ⟨position, low, rest, ⟨Nat.succ.inj counted, below⟩, rfl⟩

theorem pairwise_tuplesBelow (length : Nat) : (tuplesBelow bound length).Pairwise (· < ·) := by
  induction length generalizing bound with
  | zero => exact List.pairwise_singleton _ _
  | succ length ih =>
    rw [tuplesBelow, List.pairwise_flatMap]
    constructor
    · intro position _
      refine List.pairwise_map.mpr (ih.imp fun less => ?_)
      exact List.cons_lt_cons_iff.mpr (.inr ⟨rfl, less⟩)
    · refine List.pairwise_lt_range.imp fun {left right} less one member other also => ?_
      obtain ⟨rest, -, rfl⟩ := List.mem_map.mp member
      obtain ⟨more, -, rfl⟩ := List.mem_map.mp also
      exact List.cons_lt_cons_iff.mpr (.inl less)

end Tuples

/-! ## What a chain is replaced by -/

theorem forall₂_flatMap {α β γ : Type} {related : β → γ → Prop} {items : List α} {left : α → List β}
    {right : α → List γ} (each : ∀ item ∈ items, List.Forall₂ related (left item) (right item)) :
    List.Forall₂ related (items.flatMap left) (items.flatMap right) := by
  induction items with
  | nil => exact .nil
  | cons item rest ih =>
    obtain ⟨first, others⟩ := List.forall_mem_cons.mp each
    rw [List.flatMap_cons, List.flatMap_cons]
    exact List.rel_append first (ih others)

theorem exists_of_forall₂ {α β : Type} {related : α → β → Prop} {left : List α} {right : List β}
    (matched : List.Forall₂ related left right) {item : α} (member : item ∈ left) :
    ∃ other ∈ right, related item other := by
  induction matched with
  | nil => contradiction
  | cons first _ ih =>
    rcases List.mem_cons.mp member with rfl | later
    · exact ⟨_, List.mem_cons_self, first⟩
    · obtain ⟨other, found, same⟩ := ih later
      exact ⟨other, List.mem_cons_of_mem _ found, same⟩

section Replacing

variable {σ M : Type} [CommMonoid M] {evaluator : Evaluator σ} {data : Json} {log : σ → M}

/-- Work that comes to a value without more leaves the outcome to what is done with the value. -/
theorem bind_of_pure {α β : Type} {work : Preparing σ α} {value : α}
    {next : α → Preparing σ β} {outcome : Outcome M β} (first : ComesTo log work (pure value))
    (rest : ComesTo log (next value) outcome) : ComesTo log (work >>= next) outcome := by
  have each : ∀ session, ∃ after, work session = (.ok value, after) ∧
      log after.evaluator = log session.evaluator := by
    generalize known : (pure value : Outcome M α) = outcome at first
    cases first with
    | failure => cases known
    | success each =>
      cases known
      intro session
      obtain ⟨after, done, grown⟩ := each session
      exact ⟨after, done, grown.trans (mul_one _)⟩
  cases rest with
  | failure later =>
    refine .failure fun session => ?_
    obtain ⟨middle, done, -⟩ := each session
    obtain ⟨cause, last, failed⟩ := later middle
    exact ⟨cause, last, by rw [bind_apply, done]; exact failed⟩
  | success later =>
    refine .success fun session => ?_
    obtain ⟨middle, done, grown⟩ := each session
    obtain ⟨last, finished, added⟩ := later middle
    exact ⟨last, by rw [bind_apply, done]; exact finished, by rw [added, grown]⟩

theorem comesTo_replaceChildren_map {items : List Nat} {copy : Nat → Node}
    {leaves : Nat → List Node} (each : ∀ item ∈ items,
      ComesTo log (replaceChild evaluator data (copy item)) (pure (leaves item))) :
    ComesTo log (replaceChildren evaluator data (items.map copy))
      (pure (items.flatMap leaves)) := by
  induction items with
  | nil =>
    rw [List.map_nil, replaceChildren]
    exact .pure []
  | cons item rest ih =>
    obtain ⟨first, others⟩ := List.forall_mem_cons.mp each
    have joined : (pure ((item :: rest).flatMap leaves) : Outcome M (List Node)) = do
        let first ← pure (leaves item)
        let others ← pure (rest.flatMap leaves)
        return first ++ others := by
      rw [pure_bind, pure_bind, List.flatMap_cons]
    rw [List.map_cons, replaceChildren, joined]
    exact first.bind fun _ => (ih others).bind fun _ => .pure _

theorem comesTo_sizeOfCollection (logs : Logs evaluator data log fun _ => 1) {collection : String}
    {size : Nat} (resolved : Resolves evaluator data collection size) :
    ComesTo log (sizeOfCollection evaluator data collection) (pure size) := by
  obtain ⟨answer, always⟩ := logs.resolve collection
  refine .success fun session => ?_
  obtain ⟨next, answered, grown⟩ := always session.evaluator
  obtain ⟨items, given, rfl⟩ := resolved session.evaluator
  rw [answered] at given
  obtain rfl : answer = .ok items := given
  exact ⟨⟨next, session.counters.count .expansion⟩, by rw [sizeOfCollection_apply, answered], grown⟩

/-- A path is a text that is not blank, in any frame. -/
theorem strAttr?_around {frame : Frame} {path : List Char} {key : String} {node : Node}
    (steady : IsSteady path) (held : node.attr? key = some (.string (frame.around path))) :
    node.strAttr? key = some (frame.around path) := by
  obtain ⟨c, first, starts⟩ := steady.starts
  have dark : Text.isBlank c = false :=
    Template.isBlank_of_isReferenceChar (Template.isReferenceChar_of_isNameStart starts)
  have inside : c ∈ (frame.around path).toList := by
    simp [Frame.around, List.mem_of_head? first]
  have full : (frame.around path).toList.all Text.isBlank = false :=
    List.all_eq_false.mpr ⟨c, inside, by simp [dark]⟩
  simp [Node.strAttr?, held, Json.string?, full]

/-- A repeat around one child is replaced by what the copies of the child are replaced by. -/
theorem replaceChild_of_repeated {each : Frame} (bare : each.IsBare) {path : List Char}
    {node inner : Node} (steady : IsSteady path)
    (collection : node.attr? Node.eachKey = some (.string (each.around path)))
    (shown : node.attr? Node.showKey = none) (content : node.content = some [inner]) :
    replaceChild evaluator data node =
      sizeOfCollection evaluator data (String.ofList path) >>= fun size =>
        replaceChildren evaluator data
          ((List.range (node.copies size)).map (indexPaths (String.ofList path) · inner)) := by
  have plain : node.showCondition? = none := by simp [Node.showCondition?, Node.strAttr?, shown]
  have repeated : node.each? = some (each.around path) := strAttr?_around steady collection
  have copies (size : Nat) : node.expand (String.ofList path) size =
      (List.range (node.copies size)).map (indexPaths (String.ofList path) · inner) := by
    rw [Node.expand, indexedCopies, Node.children, content, List.map_eq_flatMap]
    simp only [Option.getD_some, indexAllPaths_eq_map, List.map_singleton]
  rw [replaceChild, Node.isShown_of_none plain, liftM_pure, pure_bind,
    Node.withoutCondition_of_none plain]
  simp only [↓reduceIte, repeated, bare.reads steady, copies]

theorem IsVariable.isLeaf {frame : Frame} {path : List Char} {node : Node}
    (given : IsVariable frame path node) : IsLeaf node where
  plain := by
    rw [Node.isUnconditional_iff]
    simp [Node.showCondition?, Node.each?, Node.strAttr?, given.shown, given.single]
  childless := given.leaf

/-- If a path does not occur behind its end, a longer path does not occur behind its own. -/
theorem not_infix_element {path name tail : List Char} {names : List (List Char)}
    (alone : ¬path <:+: dotted (name :: names) ++ tail) (link : List Char) :
    ¬path ++ link ++ '.' :: name <:+: dotted names ++ tail := fun inside => by
  have start : path <+: path ++ link ++ '.' :: name := by
    rw [List.append_assoc]
    exact List.prefix_append _ _
  have stop : dotted names ++ tail <:+ dotted (name :: names) ++ tail :=
    ⟨'.' :: name, by simp [dotted]⟩
  exact alone (start.isInfix.trans (inside.trans stop.isInfix))

/-- A chain is replaced by a variable for each tuple of positions below the bounds, in lexicographic
order. -/
theorem comesTo_replaceChild_nested (logs : Logs evaluator data log fun _ => 1) {each id : Frame}
    (bare : each.IsBare) (clear : id.IsClear) {path : List Char} {names : List (List Char)}
    {limits : List (Option Nat)} {innermost node : Node}
    (nested : Nested each id path names limits innermost node) (steady : IsSteady path)
    (identifiers : ∀ name ∈ names, isIdentifier name = true)
    (alone : ¬path <:+: dotted names ++ id.tail) {size : List Nat → Nat}
    (resolved : ∀ positions, positions.length < names.length →
      Below (positionBound size limits) positions →
        Resolves evaluator data (String.ofList (indexedPath path names positions)) (size positions)) :
    ∃ leaves, ComesTo log (replaceChild evaluator data node) (pure leaves) ∧
      List.Forall₂ (fun tuple shown => IsVariable id (indexedPath path names tuple) shown)
        (tuplesBelow (positionBound size limits) names.length) leaves := by
  induction names generalizing path limits innermost node size with
  | nil =>
    cases nested with
    | leaf given =>
      refine ⟨[innermost], ?_, .cons given .nil⟩
      rw [replaceChild_of_leaf given.isLeaf]
      exact .pure _
  | cons name names ih =>
    cases nested with
    | @repeated _ _ _ limit limits _ inner _ collection shown limited content nested =>
      obtain ⟨first, others⟩ := List.forall_mem_cons.mp identifiers
      have sized := comesTo_sizeOfCollection logs (resolved [] (Nat.succ_pos _) below_nil)
      have count : node.copies (size []) = positionBound size (limit :: limits) [] := by
        rw [Node.copies, limited]
        cases limit <;> rfl
      -- The positions inside of a copy are bounded as they are behind its own position.
      have copies : ∀ position < positionBound size (limit :: limits) [], ∃ leaves,
          ComesTo log (replaceChild evaluator data (indexPaths (String.ofList path) position inner))
            (pure leaves) ∧
          List.Forall₂ (fun tuple shown =>
              IsVariable id (indexedPath path (name :: names) (position :: tuple)) shown)
            (tuplesBelow (fun rest => positionBound size (limit :: limits) (position :: rest))
              names.length) leaves := by
        intro position low
        obtain ⟨indexed, further⟩ := nested.index steady clear bare rfl
          (by simpa [dotted] using alone) position
        exact ih further (steady.element position first) others (not_infix_element alone _)
          fun positions counted below =>
            resolved (position :: positions) (Nat.succ_lt_succ counted) (below_cons.mpr ⟨low, below⟩)
      choose! copied replaced related using copies
      have within : ∀ position ∈ List.range (positionBound size (limit :: limits) []),
          position < positionBound size (limit :: limits) [] := fun _ => List.mem_range.mp
      refine ⟨(List.range (positionBound size (limit :: limits) [])).flatMap copied, ?_, ?_⟩
      · rw [replaceChild_of_repeated bare steady collection shown content]
        refine bind_of_pure sized ?_
        rw [count]
        exact comesTo_replaceChildren_map fun position member =>
          replaced position (within position member)
      · refine forall₂_flatMap fun position member => ?_
        rw [List.forall₂_map_left_iff]
        exact related position (within position member)

end Replacing

/-! ## What takes the place of a chain -/

theorem IsDotted.steady {path : List Char} (root : IsDotted path) : IsSteady path := by
  obtain ⟨first, names, rfl, identifiers⟩ := root
  obtain ⟨start, others⟩ := List.forall_mem_cons.mp identifiers
  exact (IsSteady.of_isIdentifier start).dotted others

theorem steady_indexedPath {path : List Char} {names : List (List Char)} (steady : IsSteady path)
    (identifiers : ∀ name ∈ names, isIdentifier name = true) (positions : List Nat) :
    IsSteady (indexedPath path names positions) := by
  induction names generalizing path positions with
  | nil => exact steady
  | cons name rest ih =>
    obtain ⟨first, others⟩ := List.forall_mem_cons.mp identifiers
    cases positions with
    | nil => exact steady
    | cons position positions => exact ih (steady.element position first) others positions

/-- A variable becomes the text of its path. -/
theorem IsVariable.isText {frame : Frame} {path : List Char} {node : Node}
    (given : IsVariable frame path node) (steady : IsSteady path) :
    IsText (frame.around path) node.flatten := by
  have marked : node.isVariable = true := by
    rw [Node.isVariable, Node.classify, given.kind]
    rfl
  have flat : node.flatten =
      { node with kind := "text", text := some (frame.around path), attrs := none } := by
    rw [Node.flatten, marked, strAttr?_around steady given.id]
    rfl
  exact ⟨by rw [flat], by rw [flat], by rw [flat], by rw [Node.children_flatten, given.leaf]⟩

/-- Where a chain of repeats stands among the children of a node, a text for each tuple of positions
below the bounds that collections and iterations give takes its place, in lexicographic order. The text
is the id of the variable with the positions put in. Deeper in a document it is as if these texts stood
there from the start. -/
theorem prepare_nested {σ : Type} [Nonempty σ] {evaluator : Evaluator σ} {data : Json}
    (fixed : evaluator.Fixed data) {path : List Char} {keys : List (List Char)}
    {limits : List (Option Nat)} {innermost outermost : Node} (root : IsDotted path)
    (identifiers : ∀ key ∈ keys, isIdentifier key = true)
    (nested : Nested .bare .bare path keys limits innermost outermost) (form : Form)
    (own : form = .written ∨ HasOwnName innermost)
    (alone : ¬path <:+: dotted keys ++ (form.frame innermost).tail) (size : List Nat → Nat)
    (resolved : ∀ positions, positions.length < keys.length →
      Below (positionBound size limits) positions →
        Resolves evaluator data (String.ofList (indexedPath path keys positions)) (size positions)) :
    ∃ tuples texts,
      (∀ tuple, tuple ∈ tuples ↔
        tuple.length = keys.length ∧ Below (positionBound size limits) tuple) ∧
      tuples.Pairwise (· < ·) ∧
      List.Forall₂ (fun tuple =>
        IsText ((form.frame innermost).around (indexedPath path keys tuple))) tuples texts ∧
      (∀ node before after, node.content = some (before ++ form.apply outermost :: after) →
        ∀ session result, (prepare evaluator data node session).1 = .ok result ↔ ∃ first last,
          (prepare evaluator data (node.withContent before) session).1 =
            .ok (node.flatten.withContent first) ∧
          (prepare evaluator data (node.withContent after) session).1 =
            .ok (node.flatten.withContent last) ∧
          result = node.flatten.withContent (first ++ texts ++ last)) ∧
      ∀ document replacement, Replaces (form.apply outermost) texts document replacement →
        ∀ session result, (prepare evaluator data document session).1 = .ok result ↔
          (prepare evaluator data replacement session).1 = .ok result := by
  have steady := root.steady
  have logs := logs_nothing fixed
  have framed := nested.apply form steady identifiers own
  obtain ⟨leaves, replaced, shown⟩ := comesTo_replaceChild_nested logs form.isBare_eachFrame
    (form.isClear_frame innermost) framed steady identifiers alone resolved
  have plain : ∀ leaf ∈ leaves, IsLeaf leaf := by
    intro leaf member
    obtain ⟨_, -, given⟩ := exists_of_forall₂ shown.flip member
    exact given.isLeaf
  have comes : ∀ outcomes : Outcomes evaluator data fun _ => (1 : Multiplicative (Multiset Call)),
      outcomes.below [form.apply outermost] = pure (leaves.map Node.flatten) := by
    intro outcomes
    refine outcomes.below_of_comesTo plain ?_
    simpa only [replaceChildren, pure_bind, List.append_nil, bind_pure] using replaced
  refine ⟨_, leaves.map Node.flatten, fun _ => mem_tuplesBelow, pairwise_tuplesBelow _, ?_, ?_, ?_⟩
  · rw [List.forall₂_map_right_iff]
    exact shown.imp fun tuple leaf given =>
      given.isText (steady_indexedPath steady identifiers tuple)
  · intro node before after content session result
    exact prepare_around logs comes content session result
  · intro document replacement place session result
    refine prepare_replaces logs (fun outcomes => ?_) place session result
    rw [comes, outcomes.below_flatten plain]

/-! Two groups, of which the first has one tag and the second three; two tags of each are shown. -/

/-- An evaluator that resolves each collection to some items. -/
def answering (items : String → List Json) : Evaluator Unit where
  render source _ := pure (.ok source)
  check _ := pure (.ok ())
  resolveCollection expression _ := pure (.ok (items expression))

/-- The tags of two groups. -/
def tagsOfGroups : String → List Json
  | "payload.groups" => [.null, .null]
  | "payload.groups[0].tags" => [.null]
  | _ => [.null, .null, .null]

/-- A variable for the label of a tag, with a fallback. -/
def labelOfTag : Node :=
  { Node.ofKind "variable" with
    attrs := some [("fallback", .string "none"), ("id", .string "payload.groups.tags.label")] }

/-- The labels of two tags of each group. -/
def labelsOfGroups : Node :=
  repeatedFor "payload.groups"
    [{ repeatedFor "payload.groups.tags" [labelOfTag] with
      attrs := some [("each", .string "payload.groups.tags"), ("iterations", .string "2")] }]

theorem nested_labelsOfGroups : Nested .bare .bare "payload.groups".toList
    ["tags".toList, "label".toList] [none, some 2] labelOfTag labelsOfGroups :=
  .repeated rfl rfl rfl rfl (.repeated rfl rfl (by decide) rfl (.leaf ⟨rfl, rfl, rfl, rfl, rfl⟩))

/-- How many items each collection has. -/
def tagsAt : List Nat → Nat
  | [] => 2
  | [0] => 1
  | _ => 3

theorem prepare_labelsOfGroups :
    (answering tagsOfGroups).Fixed .null ∧
      Nested .bare .bare "payload.groups".toList ["tags".toList, "label".toList] [none, some 2]
        labelOfTag labelsOfGroups ∧
      ∃ texts, (prepare (answering tagsOfGroups) .null (listOf [wrapOutputs "t" labelsOfGroups])
          ⟨(), .zero⟩).1 = .ok (listOf texts) ∧
        ∃ text ∈ texts,
          IsText "\x7b\x7b payload.groups[1].tags[1].label | default: 'none' \x7d\x7d" text := by
  have fixed : (answering tagsOfGroups).Fixed .null := ⟨fun _ _ _ => rfl, fun _ _ _ => rfl⟩
  have own : HasOwnName labelOfTag := fun _ held => nomatch held
  have root : IsDotted "payload.groups".toList := ⟨"payload".toList, ["groups".toList], by decide⟩
  have alone : ¬"payload.groups".toList <:+: dotted ["tags".toList, "label".toList] ++
      ((Form.wrapped "t").frame labelOfTag).tail := fun inside =>
    absurd (inside.subset (show 'p' ∈ "payload.groups".toList by decide)) (by decide)
  have resolved : ∀ positions, positions.length < 2 →
      Below (positionBound tagsAt [none, some 2]) positions →
        Resolves (answering tagsOfGroups) .null (String.ofList (indexedPath
          "payload.groups".toList ["tags".toList, "label".toList] positions)) (tagsAt positions) := by
    intro positions few below _
    match positions with
    | [] => exact ⟨_, rfl, by decide⟩
    | [position] =>
      have low : position < 2 := (below_cons.mp below).1
      obtain rfl | rfl : position = 0 ∨ position = 1 := by omega
      · exact ⟨_, rfl, by decide⟩
      · exact ⟨_, rfl, by decide⟩
    | _ :: _ :: _ => exact absurd few (by simp)
  obtain ⟨tuples, texts, members, -, shown, around, -⟩ := prepare_nested fixed root (by decide)
    nested_labelsOfGroups (.wrapped "t") (.inr own) alone tagsAt resolved
  have last : [1, 1] ∈ tuples :=
    (members _).mpr ⟨rfl, below_cons.mpr ⟨by decide, below_cons.mpr ⟨by decide, below_nil⟩⟩⟩
  obtain ⟨text, listed, isText⟩ := exists_of_forall₂ shown last
  have empty : (listOf []).isSettled = true := by decide
  have nothing : (prepare (answering tagsOfGroups) .null (listOf []) ⟨(), .zero⟩).1 =
      .ok (listOf []) := by
    rw [prepare, walk_of_isSettled _ _ _ _ _ empty]
    rfl
  refine ⟨fixed, nested_labelsOfGroups, texts, ?_, text, listed, isText⟩
  refine (around (listOf [wrapOutputs "t" labelsOfGroups]) [] [] rfl _ _).mpr ?_
  exact ⟨[], [], nothing, nothing, by rw [List.nil_append, List.append_nil]; rfl⟩

end MessageTemplate.Document
