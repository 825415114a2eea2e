import MessageTemplate.Document.Dynamic
import MessageTemplate.Proofs.Json.Outputs

/-! # Documents with outputs

Wrapping the attributes of a document whose texts hold no delimiters leaves texts that are outputs or
hold no delimiters (`isWrapped_apply`). Pairs of attributes do not touch each other, so every path that a
node shows is among the outputs (`mem_texts_apply`). -/

namespace MessageTemplate.Document

open Text Json Template

/-! ## The texts of a document -/

theorem mem_textsOfMembers {text : String} {members : List (String × Json)} :
    text ∈ textsOfMembers members ↔
      ∃ entry ∈ members, text = entry.1 ∨ text ∈ entry.2.texts := by
  induction members with
  | nil => simp [textsOfMembers]
  | cons entry rest ih => simp [textsOfMembers, ih, or_assoc]

theorem textsOfItems_nodesToJson (nodes : List Node) :
    textsOfItems (nodesToJson nodes) = nodes.flatMap fun node => node.toJson.texts := by
  induction nodes with
  | nil => rw [nodesToJson]; rfl
  | cons node rest ih => rw [nodesToJson, textsOfItems, ih, List.flatMap_cons]

theorem textsOfMembers_append (left right : List (String × Json)) :
    textsOfMembers (left ++ right) = textsOfMembers left ++ textsOfMembers right := by
  induction left with
  | nil => rfl
  | cons entry rest ih => simp [textsOfMembers, ih]

theorem textsOfMembers_optionalField (key : String) (value : Option Json) :
    textsOfMembers (optionalField key value) =
      value.toList.flatMap fun value => key :: value.texts := by
  cases value <;> simp [optionalField, textsOfMembers]

/-- The texts of a node: its fields one by one. -/
theorem texts_toJson (node : Node) :
    node.toJson.texts = "type" :: node.kind ::
      ((node.attrs.toList.flatMap fun attrs => "attrs" :: textsOfMembers attrs) ++
        (node.marks.toList.flatMap fun nodes =>
          "marks" :: nodes.flatMap fun node => node.toJson.texts) ++
        (node.content.toList.flatMap fun nodes =>
          "content" :: nodes.flatMap fun node => node.toJson.texts) ++
        (node.text.toList.flatMap fun text => ["text", text]) ++ textsOfMembers node.extra) := by
  obtain ⟨kind, attrs, marks, content, text, extra⟩ := node
  cases attrs <;> cases marks <;> cases content <;> cases text <;>
    simp [Node.toJson, textsOfMembers_append, textsOfMembers_optionalField, textsOfMembers, texts,
      textsOfItems_nodesToJson]

/-- What holds of the texts of a node holds of its fields. -/
theorem forall_texts_toJson {good : String → Prop} {node : Node} :
    (∀ text ∈ node.toJson.texts, good text) ↔
      good "type" ∧ good node.kind ∧
      (∀ attrs ∈ node.attrs, good "attrs" ∧ ∀ text ∈ textsOfMembers attrs, good text) ∧
      (∀ nodes ∈ node.marks, good "marks" ∧
        ∀ mark ∈ nodes, ∀ text ∈ mark.toJson.texts, good text) ∧
      (∀ nodes ∈ node.content, good "content" ∧
        ∀ child ∈ nodes, ∀ text ∈ child.toJson.texts, good text) ∧
      (∀ text ∈ node.text, good "text" ∧ good text) ∧
      ∀ text ∈ textsOfMembers node.extra, good text := by
  rw [texts_toJson]
  simp only [List.forall_mem_cons, List.forall_mem_append, List.forall_mem_flatMap,
    Option.mem_toList, Option.mem_def, List.not_mem_nil, false_imp_iff, implies_true, and_true,
    and_assoc]

/-! ## Attributes -/

variable {policy : OutputPolicy}

theorem applyAll_eq_map (nodes : List Node) : policy.applyAll nodes = nodes.map policy.apply := by
  induction nodes with
  | nil => rw [OutputPolicy.applyAll]; rfl
  | cons node rest ih => rw [OutputPolicy.applyAll, ih, List.map_cons]

/-- The attributes of a node are wrapped, and so are the nodes in it. -/
theorem apply_eq (node : Node) :
    policy.apply node = { node with
      attrs := node.attrs.map (policy.applyAttrs node.kind)
      marks := node.marks.map (List.map policy.apply)
      content := node.content.map (List.map policy.apply) } := by
  obtain ⟨kind, attrs, marks, content, text, extra⟩ := node
  cases marks <;> cases content <;> simp [OutputPolicy.apply, applyAll_eq_map]

/-- The attributes that a pair may touch. -/
def AttributePair.touched (pair : AttributePair) : List String :=
  [pair.key, pair.flag]

/-- No attribute is touched by both of two pairs. -/
def AttributePair.Apart (one other : AttributePair) : Prop :=
  ∀ key ∈ one.touched, key ∉ other.touched

instance (one other : AttributePair) : Decidable (one.Apart other) :=
  inferInstanceAs (Decidable (∀ key ∈ one.touched, key ∉ other.touched))

theorem pairwise_apart (kind : Kind) :
    (kind.pairs ++ commonPairs).Pairwise AttributePair.Apart := by
  cases kind <;> decide

/-- A pair leaves the attributes of others alone. -/
theorem get?_applyPair_of_ne {kind key : String} {given attrs : Keyed Json} {pair : AttributePair}
    (other : key ∉ pair.touched) :
    Keyed.get? key (policy.applyPair kind given attrs pair) = Keyed.get? key attrs := by
  have keeps {target : String} (touched : target ∈ pair.touched) (value : Json)
      (attrs : Keyed Json) : Keyed.get? key (Keyed.insert target value attrs) =
        Keyed.get? key attrs :=
    Keyed.get?_insert_of_ne value attrs fun same => other (same ▸ touched)
  have atKey : pair.key ∈ pair.touched := List.mem_cons_self
  have atFlag : pair.flag ∈ pair.touched := List.mem_cons_of_mem _ List.mem_cons_self
  unfold OutputPolicy.applyPair
  split
  · rfl
  split
  · rfl
  dsimp only
  split
  · split
    · rw [keeps atFlag, keeps atKey]
    · rw [keeps atFlag]
  · split
    · rw [keeps atKey]
    · rfl

/-- Pairs leave the attributes of others alone. -/
theorem get?_foldl_applyPair_of_ne {kind key : String} {given attrs : Keyed Json}
    {pairs : List AttributePair}
    (others : ∀ pair ∈ pairs, key ∉ pair.touched) :
    Keyed.get? key (pairs.foldl (policy.applyPair kind given) attrs) = Keyed.get? key attrs := by
  induction pairs generalizing attrs with
  | nil => rfl
  | cons pair rest ih =>
    obtain ⟨first, more⟩ := List.forall_mem_cons.mp others
    rw [List.foldl_cons, ih more, get?_applyPair_of_ne first]

/-- Of pairs that do not touch each other, each one is applied to what it touches as it was given, and
what it makes of that stays. -/
theorem exists_applyPair_of_mem {kind : String} {given attrs : Keyed Json}
    {pairs : List AttributePair} {pair : AttributePair}
    (apart : pairs.Pairwise AttributePair.Apart) (listed : pair ∈ pairs) :
    ∃ before, (∀ key ∈ pair.touched, Keyed.get? key before = Keyed.get? key attrs) ∧
      ∀ key ∈ pair.touched, Keyed.get? key (pairs.foldl (policy.applyPair kind given) attrs) =
        Keyed.get? key (policy.applyPair kind given before pair) := by
  induction pairs generalizing attrs with
  | nil => contradiction
  | cons first rest ih =>
    obtain ⟨others, apart⟩ := List.pairwise_cons.mp apart
    rw [List.foldl_cons]
    rcases List.mem_cons.mp listed with rfl | later
    · exact ⟨attrs, fun _ _ => rfl, fun key touched =>
        get?_foldl_applyPair_of_ne fun other member => others other member key touched⟩
    · obtain ⟨before, same, result⟩ := @ih (policy.applyPair kind given attrs first) apart later
      exact ⟨before, fun key touched => (same key touched).trans
        (get?_applyPair_of_ne fun inside => others pair later key inside touched), result⟩

/-- What a pair makes of an attribute whose flag is set. -/
theorem get?_applyPair_self {kind path : String} {given attrs : Keyed Json} {pair : AttributePair}
    (flagged : isSet (Keyed.get? pair.flag attrs) = true)
    (held : Keyed.get? pair.key attrs = some (.string path)) (full : path ≠ "")
    (wrapped : policy.wraps kind pair.key path = true) (inert : IsInert path)
    (kept : pair.key = pair.flag → policy.clears pair.flag = false) :
    Keyed.get? pair.key (policy.applyPair kind given attrs pair) =
      some (.string (attributeOutput given pair.key path)) := by
  have value : nonemptyText? attrs pair.key = some path := by
    simp [nonemptyText?, held, Json.string?, Option.filter, full]
  have absent : occurs outputOpening path.toList = false :=
    Bool.eq_false_iff.mpr (inert .output).1
  simp only [OutputPolicy.applyPair, flagged, value, wrapped, absent, Bool.not_true,
    Bool.false_eq_true, if_false, Bool.not_false, Bool.and_self, if_true]
  split
  · next clears =>
    have other : pair.key ≠ pair.flag := fun same => by
      rw [kept same] at clears
      contradiction
    rw [Keyed.get?_insert_of_ne _ _ other, Keyed.get?_insert_self]
  · exact Keyed.get?_insert_self _ _ _

/-- Pairs that do not touch each other wrap every attribute whose flag is set. -/
theorem get?_foldl_applyPair {kind path : String} {given attrs : Keyed Json}
    {pairs : List AttributePair} {pair : AttributePair}
    (apart : pairs.Pairwise AttributePair.Apart) (listed : pair ∈ pairs)
    (flagged : isSet (Keyed.get? pair.flag attrs) = true)
    (held : Keyed.get? pair.key attrs = some (.string path)) (full : path ≠ "")
    (wrapped : policy.wraps kind pair.key path = true) (inert : IsInert path)
    (kept : pair.key = pair.flag → policy.clears pair.flag = false) :
    Keyed.get? pair.key (pairs.foldl (policy.applyPair kind given) attrs) =
      some (.string (attributeOutput given pair.key path)) := by
  obtain ⟨before, same, result⟩ := exists_applyPair_of_mem apart listed
  have value := same pair.key List.mem_cons_self
  have flag := same pair.flag (List.mem_cons_of_mem _ List.mem_cons_self)
  rw [result pair.key List.mem_cons_self]
  exact get?_applyPair_self (flag ▸ flagged) (value ▸ held) full wrapped inert kept

/-! ## Texts without delimiters -/

theorem isInert_iff {text : String} : IsInert text ↔ ∀ first second,
    (∃ delimiter : Delimiter, delimiter.opening = [first, second] ∨
      delimiter.closing = [first, second]) → Parts first second text.toList := by
  constructor
  · rintro inert first second ⟨delimiter, opens | closes⟩
    · exact parts_iff.mpr (opens ▸ (inert delimiter).1)
    · exact parts_iff.mpr (closes ▸ (inert delimiter).2)
  · intro parts delimiter
    cases delimiter with
    | output =>
      exact ⟨parts_iff.mp (parts '\x7b' '\x7b' ⟨.output, .inl rfl⟩),
        parts_iff.mp (parts '\x7d' '\x7d' ⟨.output, .inr rfl⟩)⟩
    | tag =>
      exact ⟨parts_iff.mp (parts '\x7b' '%' ⟨.tag, .inl rfl⟩),
        parts_iff.mp (parts '%' '\x7d' ⟨.tag, .inr rfl⟩)⟩

/-- The characters of delimiters are those that stand in one. -/
theorem mem_delimiterChars {first second : Char} (given : ∃ delimiter : Delimiter,
    delimiter.opening = [first, second] ∨ delimiter.closing = [first, second]) :
    first ∈ delimiterChars ∧ second ∈ delimiterChars := by
  obtain ⟨delimiter, opens | closes⟩ := given
  · cases delimiter with
    | output => cases opens; decide
    | tag => cases opens; decide
  · cases delimiter with
    | output => cases closes; decide
    | tag => cases closes; decide

namespace IsInert

variable {left right : String}

/-- Texts are joined where one of them has no character of a delimiter at its end. -/
theorem append (inert : IsInert left) (also : IsInert right)
    (apart : (∀ c ∈ left.toList.getLast?, c ∉ delimiterChars) ∨
      ∀ c ∈ right.toList.head?, c ∉ delimiterChars) : IsInert (left ++ right) := by
  refine isInert_iff.mpr fun first second given => ?_
  obtain ⟨opens, closes⟩ := mem_delimiterChars given
  rw [String.toList_append]
  refine parts_append.mpr ⟨isInert_iff.mp inert _ _ given, isInert_iff.mp also _ _ given, ?_⟩
  rintro c last d next ⟨rfl, rfl⟩
  rcases apart with ends | starts
  · exact ends c last opens
  · exact starts d next closes

theorem withoutQuotes (inert : IsInert left) : IsInert (withoutQuotes left) := by
  refine isInert_iff.mpr fun first second given => ?_
  obtain ⟨opens, closes⟩ := mem_delimiterChars given
  have same : ∀ mark ∈ delimiterChars, ∀ c : Char,
      (if c = '\'' then '’' else c) = mark → c = mark := by
    intro mark member c equal
    split at equal
    · rw [← equal] at member
      exact absurd member (by decide)
    · exact equal
  rw [Document.withoutQuotes, String.toList_ofList, Parts, List.isChain_map]
  refine (isInert_iff.mp inert _ _ given).imp fun c d apart both => apart ?_
  exact ⟨same first opens c both.1, same second closes d both.2⟩

end IsInert

/-- The output of a path is that of a text without delimiters, whatever its fallback is. -/
theorem isWrapped_wrapOutput {path : String} {fallback : Option String} (inert : IsInert path)
    (also : ∀ text ∈ fallback, IsInert text) : IsWrapped (wrapOutput path fallback) := by
  have opening : IsInert " | default: '" := by decide
  have closing : IsInert "'" := by decide
  rw [wrapOutput]
  split
  · next text given =>
    have text := (also text (Option.filter_eq_some_iff.mp given).1).withoutQuotes
    have start := inert.append opening (.inr (by simp [delimiterChars]))
    have quote : ∀ c ∈ (path ++ " | default: '").toList.getLast?, c ∉ delimiterChars := by
      have ends : " | default: '".toList.getLast? = some '\'' := by decide
      rw [String.toList_append, List.getLast?_append, ends, Option.some_or]
      simp [delimiterChars]
    exact .output ((start.append text (.inl quote)).append closing
      (.inr (by simp [delimiterChars])))
  · exact .output inert

theorem inert_of_not_occurs {text : String} (wrapped : IsWrapped text)
    (absent : occurs outputOpening text.toList = false) : IsInert text := by
  cases wrapped with
  | inert inert => exact inert
  | @output inside inert =>
    rw [toList_outputOf] at absent
    contradiction

/-! ## Wrapped documents -/

/-- What holds of the texts of some members, of a key and of the texts of a value holds of the texts of
the members with this value under the key. -/
theorem forall_texts_insert {good : String → Prop} {key : String} {value : Json}
    {attrs : Keyed Json} (members : ∀ text ∈ textsOfMembers attrs, good text) (name : good key)
    (inside : ∀ text ∈ value.texts, good text) :
    ∀ text ∈ textsOfMembers (Keyed.insert key value attrs), good text := by
  intro text member
  obtain ⟨entry, put, part⟩ := mem_textsOfMembers.mp member
  rcases Keyed.mem_insert put with rfl | kept
  · rcases part with rfl | given
    · exact name
    · exact inside text given
  · exact members text (mem_textsOfMembers.mpr ⟨entry, kept, part⟩)

theorem mem_texts_of_get? {key text : String} {attrs : Keyed Json}
    (found : Keyed.get? key attrs = some (.string text)) : text ∈ textsOfMembers attrs :=
  mem_textsOfMembers.mpr ⟨_, Keyed.mem_of_get? found, .inr (List.mem_singleton.mpr rfl)⟩

theorem get?_of_nonemptyText? {key text : String} {attrs : Keyed Json}
    (found : nonemptyText? attrs key = some text) :
    Keyed.get? key attrs = some (.string text) := by
  obtain ⟨value, held, read⟩ := Option.bind_eq_some_iff.mp (Option.filter_eq_some_iff.mp found).1
  cases value with
  | string given =>
    cases read
    exact held
  | _ => contradiction

theorem isWrapped_attributeOutput {given : Keyed Json} {key value : String}
    (inert : ∀ text ∈ textsOfMembers given, IsInert text) (also : IsInert value) :
    IsWrapped (attributeOutput given key value) := by
  rw [attributeOutput]
  split
  · refine isWrapped_wrapOutput ?_ fun text held => ?_
    · cases other : nonemptyText? given "aliasFor" with
      | none => exact also
      | some name => exact inert name (mem_texts_of_get? (get?_of_nonemptyText? other))
    · obtain ⟨value, found, read⟩ := Option.bind_eq_some_iff.mp held
      cases value with
      | string given =>
        cases read
        exact inert text (mem_texts_of_get? found)
      | _ => contradiction
  · exact isWrapped_wrapOutput also fun _ nothing => nomatch nothing

theorem isInert_touched {kind : Kind} :
    ∀ pair ∈ kind.pairs ++ commonPairs, ∀ key ∈ pair.touched, IsInert key := by
  cases kind <;> decide

/-- What a pair makes of attributes holds no delimiters but those of outputs. -/
theorem isWrapped_applyPair {kind : String} {given attrs : Keyed Json} {pair : AttributePair}
    (names : ∀ key ∈ pair.touched, IsInert key)
    (inert : ∀ text ∈ textsOfMembers given, IsInert text)
    (wrapped : ∀ text ∈ textsOfMembers attrs, IsWrapped text) :
    ∀ text ∈ textsOfMembers (policy.applyPair kind given attrs pair), IsWrapped text := by
  have key : IsWrapped pair.key := .inert (names _ List.mem_cons_self)
  have flag : IsWrapped pair.flag := .inert (names _ (List.mem_cons_of_mem _ List.mem_cons_self))
  have cleared {attrs : Keyed Json} (wrapped : ∀ text ∈ textsOfMembers attrs, IsWrapped text) :
      ∀ text ∈ textsOfMembers (if policy.clears pair.flag then
        Keyed.insert pair.flag (.bool false) attrs else attrs), IsWrapped text := by
    split
    · exact forall_texts_insert wrapped flag fun _ nothing => nomatch nothing
    · exact wrapped
  unfold OutputPolicy.applyPair
  split
  · exact wrapped
  split
  · exact wrapped
  next value held =>
  refine cleared ?_
  split
  · next wraps =>
    have absent : occurs outputOpening value.toList = false := by
      simpa using (Bool.and_eq_true_iff.mp wraps).2
    have own := wrapped value (mem_texts_of_get? (get?_of_nonemptyText? held))
    refine forall_texts_insert wrapped key fun text member => ?_
    rw [List.mem_singleton.mp member]
    exact isWrapped_attributeOutput inert (inert_of_not_occurs own absent)
  · exact wrapped

theorem isWrapped_foldl_applyPair {kind : String} {given attrs : Keyed Json}
    {pairs : List AttributePair} (names : ∀ pair ∈ pairs, ∀ key ∈ pair.touched, IsInert key)
    (inert : ∀ text ∈ textsOfMembers given, IsInert text)
    (wrapped : ∀ text ∈ textsOfMembers attrs, IsWrapped text) :
    ∀ text ∈ textsOfMembers (pairs.foldl (policy.applyPair kind given) attrs), IsWrapped text := by
  induction pairs generalizing attrs with
  | nil => exact wrapped
  | cons pair rest ih =>
    obtain ⟨first, others⟩ := List.forall_mem_cons.mp names
    exact ih others (isWrapped_applyPair first inert wrapped)

mutual

/-- A document whose texts hold no delimiters has only those of outputs once it is wrapped. -/
theorem isWrapped_apply : (node : Node) → (∀ text ∈ node.toJson.texts, IsInert text) →
    ∀ text ∈ (policy.apply node).toJson.texts, IsWrapped text
  | ⟨kind, attrs, marks, content, text, extra⟩, inert => by
    obtain ⟨typeKey, name, attributes, inMarks, inContent, shown, others⟩ :=
      forall_texts_toJson.mp inert
    rw [apply_eq]
    refine forall_texts_toJson.mpr ⟨.inert typeKey, .inert name, ?_, ?_, ?_, ?_, ?_⟩
    · intro wrapped given
      obtain ⟨attrs, held, rfl⟩ := Option.map_eq_some_iff.mp given
      obtain ⟨key, inside⟩ := attributes attrs held
      exact ⟨.inert key, isWrapped_foldl_applyPair isInert_touched inside
        fun text member => .inert (inside text member)⟩
    · intro wrapped given
      cases marks with
      | none => contradiction
      | some nodes =>
        cases given
        obtain ⟨key, inside⟩ := inMarks nodes rfl
        exact ⟨.inert key, isWrapped_applyAll nodes inside⟩
    · intro wrapped given
      cases content with
      | none => contradiction
      | some nodes =>
        cases given
        obtain ⟨key, inside⟩ := inContent nodes rfl
        exact ⟨.inert key, isWrapped_applyAll nodes inside⟩
    · exact fun text given => ⟨.inert (shown text given).1, .inert (shown text given).2⟩
    · exact fun text member => .inert (others text member)

theorem isWrapped_applyAll : (nodes : List Node) →
    (∀ node ∈ nodes, ∀ text ∈ node.toJson.texts, IsInert text) →
    ∀ node ∈ nodes.map policy.apply, ∀ text ∈ node.toJson.texts, IsWrapped text
  | [], _ => by simp
  | node :: rest, inert => by
    obtain ⟨first, others⟩ := List.forall_mem_cons.mp inert
    exact List.forall_mem_cons.mpr ⟨isWrapped_apply node first, isWrapped_applyAll rest others⟩

end

/-! ## What is shown -/

section

variable {document node : Node} {text : String}

theorem mem_texts_of_attrs {attrs : Keyed Json} (held : node.attrs = some attrs)
    (member : text ∈ textsOfMembers attrs) : text ∈ node.toJson.texts := by
  obtain ⟨-, -, fields, -⟩ := (@forall_texts_toJson (· ∈ node.toJson.texts) node).mp fun _ => id
  exact (fields attrs held).2 text member

theorem mem_texts_of_marks {mark : Node} {marks : List Node} (held : node.marks = some marks)
    (given : mark ∈ marks) (member : text ∈ mark.toJson.texts) : text ∈ node.toJson.texts := by
  obtain ⟨-, -, -, fields, -⟩ := (@forall_texts_toJson (· ∈ node.toJson.texts) node).mp fun _ => id
  exact (fields marks held).2 mark given text member

theorem mem_texts_of_content {child : Node} {children : List Node}
    (held : node.content = some children) (given : child ∈ children)
    (member : text ∈ child.toJson.texts) : text ∈ node.toJson.texts := by
  obtain ⟨-, -, -, -, fields, -⟩ :=
    (@forall_texts_toJson (· ∈ node.toJson.texts) node).mp fun _ => id
  exact (fields children held).2 child given text member

/-- What is in the tree of a document is in the tree of the wrapped one, wrapped. -/
theorem mem_texts_apply_of_holds (inside : document.Holds node)
    (member : text ∈ (policy.apply node).toJson.texts) :
    text ∈ (policy.apply document).toJson.texts := by
  induction inside with
  | self => exact member
  | @content document child node children held given _ ih =>
    have wrapped : (policy.apply document).content = some (children.map policy.apply) := by
      rw [apply_eq, held]
      rfl
    exact mem_texts_of_content wrapped (List.mem_map_of_mem given) (ih member)
  | @mark document mark node marks held given _ ih =>
    have wrapped : (policy.apply document).marks = some (marks.map policy.apply) := by
      rw [apply_eq, held]
      rfl
    exact mem_texts_of_marks wrapped (List.mem_map_of_mem given) (ih member)

theorem mem_texts_of_holds (inside : document.Holds node) (member : text ∈ node.toJson.texts) :
    text ∈ document.toJson.texts := by
  induction inside with
  | self => exact member
  | content held given _ ih => exact mem_texts_of_content held given (ih member)
  | mark held given _ ih => exact mem_texts_of_marks held given (ih member)

theorem attributeOutput_eq {attrs : Keyed Json} {key path : String}
    (own : key = "id" → ∀ other ∈ ["aliasFor", "fallback"], nonemptyText? attrs other = none) :
    attributeOutput attrs key path = outputOf path := by
  rw [attributeOutput]
  split
  · next same =>
    have name := own same "aliasFor" (by simp)
    have fallback : ((Keyed.get? "fallback" attrs).bind Json.string?).filter (· ≠ "") = none :=
      own same "fallback" (by simp)
    rw [name, wrapOutput, fallback]
    rfl
  · rfl

/-- The output of every path that a node shows is among the texts of the wrapped document. -/
theorem mem_texts_apply {pair : AttributePair} {path : String}
    (inert : ∀ text ∈ document.toJson.texts, IsInert text) (inside : document.Holds node)
    (shows : policy.Shows node pair path) (full : path ≠ "")
    (kept : pair.key = pair.flag → policy.clears pair.flag = false) :
    outputOf path ∈ (policy.apply document).toJson.texts := by
  obtain ⟨listed, flagged, given, wrapped, own⟩ := shows
  obtain ⟨attrs, held, value⟩ := Option.bind_eq_some_iff.mp given
  rw [Node.attr?, held, Option.bind_some] at flagged
  rw [held] at own
  have among : path ∈ document.toJson.texts :=
    mem_texts_of_holds inside (mem_texts_of_attrs held (mem_texts_of_get? value))
  have output : Keyed.get? pair.key (policy.applyAttrs node.kind attrs) =
      some (.string (outputOf path)) := by
    rw [← attributeOutput_eq own]
    exact get?_foldl_applyPair (pairwise_apart _) listed flagged value full wrapped
      (inert path among) kept
  have attributes : (policy.apply node).attrs = some (policy.applyAttrs node.kind attrs) := by
    rw [apply_eq, held]
    rfl
  exact mem_texts_apply_of_holds inside (mem_texts_of_attrs attributes (mem_texts_of_get? output))

end

end MessageTemplate.Document
