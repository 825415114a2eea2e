import MessageTemplate.Document.Codec
import MessageTemplate.Proofs.Json.Reading

/-! # Documents are read back

A node is proper if its maps are in key order and no other field of it has the name of one of the
five, and so with its marks and its content. Such a node is decoded from what it is encoded as
(`decode?_toJson`), fields that are left out included, and every node that is decoded is proper and
is encoded no deeper than it was written (`decode_isProper`). With the reader of values this gives
that documents are read back from their texts (`parse?_serialize`). -/

namespace MessageTemplate.Document

/-- The names of the five fields. -/
def fieldNames : List String := ["type", "attrs", "marks", "content", "text"]

/-- The maps of a node are in key order, its other fields have other names than the five, and this
holds of its marks and of its content too. -/
inductive Node.IsProper : Node → Prop where
  | intro {node : Node} (attrs : ∀ members ∈ node.attrs, (Json.object members).InOrder)
      (extra : (Json.object node.extra).InOrder)
      (apart : ∀ entry ∈ node.extra, entry.1 ∉ fieldNames)
      (marks : ∀ nodes ∈ node.marks, ∀ mark ∈ nodes, IsProper mark)
      (content : ∀ nodes ∈ node.content, ∀ child ∈ nodes, IsProper child) : IsProper node

/-! ## Encoding -/

theorem nodesToJson_eq_map (nodes : List Node) : nodesToJson nodes = nodes.map Node.toJson := by
  induction nodes with
  | nil => rfl
  | cons node rest ih => rw [nodesToJson, ih, List.map_cons]

/-- A list of nodes as JSON. -/
def encodeNodes (nodes : List Node) : Json := .array (nodes.map Node.toJson)

theorem toJson_eq (node : Node) :
    node.toJson = .object ([("type", .string node.kind)] ++
      optionalField "attrs" (node.attrs.map Json.object) ++
      optionalField "marks" (node.marks.map encodeNodes) ++
      optionalField "content" (node.content.map encodeNodes) ++
      optionalField "text" (node.text.map Json.string) ++ node.extra) := by
  obtain ⟨kind, attrs, marks, content, text, extra⟩ := node
  rcases marks with _ | marks <;> rcases content with _ | content <;>
    simp only [Node.toJson, nodesToJson_eq_map, Option.map_none, Option.map_some, encodeNodes]

/-! ## Fields -/

/-- Reads a field. -/
def field? (key : String) (value : Json) : Option Field :=
  if key = "marks" then (decodeNodes? value).map Field.marks
  else if key = "content" then (decodeNodes? value).map Field.content
  else plainField? key value

theorem decodeFields?_cons (draft : Draft) (key : String) (value : Json)
    (rest : List (String × Json)) :
    decodeFields? draft ((key, value) :: rest) =
      ((field? key value).bind draft.add?).bind fun next => decodeFields? next rest := by
  rw [decodeFields?, field?]
  split
  · next given => rw [given]; rfl
  · next given => rw [given]; rfl

theorem decodeFields?_append (draft : Draft) (fields more : List (String × Json)) :
    decodeFields? draft (fields ++ more) =
      (decodeFields? draft fields).bind fun next => decodeFields? next more := by
  induction fields generalizing draft with
  | nil => rfl
  | cons entry rest ih =>
    rw [List.cons_append, decodeFields?_cons, decodeFields?_cons, Option.bind_assoc
      ((field? entry.1 entry.2).bind draft.add?)]
    exact Option.bind_congr fun next _ => ih next

/-! ## Decoding what is encoded -/

theorem decodeFields?_singleton {draft : Draft} {key : String} {value : Json} {field : Field}
    (read : field? key value = some field) :
    decodeFields? draft [(key, value)] = draft.add? field := by
  rw [decodeFields?_cons, read, Option.bind_some]
  exact Option.bind_fun_some _

/-- A field that may be left out is read into a draft in which it has not been seen. -/
theorem decodeFields?_optionalField {α : Type} {key : String} {encode : α → Json}
    {make : Option α → Field} {value : Option α}
    (read : ∀ inner ∈ value, field? key (encode inner) = some (make (some inner)))
    (filled : Option α → Draft)
    (added : ∀ inner, (filled none).add? (make (some inner)) = some (filled (some inner))) :
    decodeFields? (filled none) (optionalField key (value.map encode)) = some (filled value) := by
  cases value with
  | none => rfl
  | some inner => exact (decodeFields?_singleton (read inner rfl)).trans (added inner)

theorem field?_attrs {members : Keyed Json} (inOrder : (Json.object members).InOrder) :
    field? "attrs" (.object members) = some (.attrs (some members)) := by
  have same : Keyed.ofList (Json.orderedMembers members) = members :=
    Json.object.inj (Json.ordered_eq_self inOrder)
  have read : field? "attrs" (.object members) =
      some (.attrs (some (Keyed.ofList (Json.orderedMembers members)))) := rfl
  rw [read, same]

theorem decodeNodes?_encodeNodes {nodes : List Node}
    (each : ∀ node ∈ nodes, decode? node.toJson = some node) :
    decodeNodes? (encodeNodes nodes) = some (some nodes) := by
  have items : decodeItems? (nodes.map Node.toJson) = some nodes := by
    induction nodes with
    | nil => rfl
    | cons node rest ih =>
      obtain ⟨first, later⟩ := List.forall_mem_cons.mp each
      rw [List.map_cons, decodeItems?, first, ih later]
  rw [encodeNodes, decodeNodes?, items]
  rfl

theorem field?_marks {nodes : List Node} (each : ∀ node ∈ nodes, decode? node.toJson = some node) :
    field? "marks" (encodeNodes nodes) = some (.marks (some nodes)) := by
  rw [field?, if_pos rfl, decodeNodes?_encodeNodes each, Option.map_some]

theorem field?_content {nodes : List Node}
    (each : ∀ node ∈ nodes, decode? node.toJson = some node) :
    field? "content" (encodeNodes nodes) = some (.content (some nodes)) := by
  rw [field?, if_neg (by decide), if_pos rfl, decodeNodes?_encodeNodes each, Option.map_some]

theorem field?_other {key : String} (apart : key ∉ fieldNames) (value : Json) :
    field? key value = some (.other key value.ordered) := by
  simp only [fieldNames, List.mem_cons, List.not_mem_nil, or_false, not_or] at apart
  obtain ⟨kind, attrs, marks, content, text⟩ := apart
  rw [field?, if_neg marks, if_neg content]
  unfold plainField?
  split
  all_goals first
  | contradiction
  | rfl

/-- Other fields in key order are read as they are. -/
theorem decodeFields?_extra {draft : Draft} {extra : Keyed Json}
    (inOrder : (Json.object (draft.extra ++ extra)).InOrder)
    (apart : ∀ entry ∈ extra, entry.1 ∉ fieldNames) :
    decodeFields? draft extra = some { draft with extra := draft.extra ++ extra } := by
  induction extra generalizing draft with
  | nil => rw [List.append_nil, decodeFields?]
  | cons entry rest ih =>
    obtain ⟨sorted, each⟩ := Json.inOrder_object_iff.mp inOrder
    obtain ⟨first, later⟩ := List.forall_mem_cons.mp apart
    have same : entry.2.ordered = entry.2 :=
      Json.ordered_eq_self (each entry (List.mem_append_right _ List.mem_cons_self))
    have last : ∀ other ∈ draft.extra, other.1 < entry.1 := fun other member =>
      (List.pairwise_append.mp sorted).2.2 other member entry List.mem_cons_self
    have added : draft.add? (.other entry.1 entry.2) =
        some { draft with extra := draft.extra ++ [entry] } := by
      rw [Draft.add?, Keyed.insert_eq_append last]
    rw [List.append_cons] at inOrder ⊢
    rw [decodeFields?_cons, field?_other first, same, Option.bind_some, added, Option.bind_some]
    exact ih inOrder later

/-- The draft of which a node is the outcome when its fields have been read. -/
def draftOf (node : Node) : Draft :=
  ⟨some node.kind, node.attrs.map some, node.marks.map some, node.content.map some,
    node.text.map some, node.extra⟩

theorem finish?_draftOf (node : Node) : (draftOf node).finish? = some node := by
  have joined {α : Type} (value : Option α) : (value.map some).join = value := by
    cases value <;> rfl
  obtain ⟨kind, attrs, marks, content, text, extra⟩ := node
  simp only [draftOf, Draft.finish?, Option.map_some, joined]

/-- A proper node is decoded from what it is encoded as. -/
theorem decode?_toJson {node : Node} (proper : node.IsProper) : decode? node.toJson = some node := by
  induction proper with
  | @intro node inOrder extra apart _ _ markEach childEach =>
    obtain ⟨kind, attrs, marks, content, text, others⟩ := node
    -- The fields that may be left out are read in the order in which they are written.
    have kindRead : decodeFields? .empty [("type", .string kind)] =
        some (draftOf ⟨kind, none, none, none, none, []⟩) := by
      have read : field? "type" (.string kind) = some (.kind kind) := rfl
      exact decodeFields?_singleton read
    have attrsRead : decodeFields? (draftOf ⟨kind, none, none, none, none, []⟩)
        (optionalField "attrs" (attrs.map Json.object)) =
          some (draftOf ⟨kind, attrs, none, none, none, []⟩) :=
      decodeFields?_optionalField (fun members given => field?_attrs (inOrder members given))
        (fun value => draftOf ⟨kind, value, none, none, none, []⟩) fun _ => rfl
    have marksRead : decodeFields? (draftOf ⟨kind, attrs, none, none, none, []⟩)
        (optionalField "marks" (marks.map encodeNodes)) =
          some (draftOf ⟨kind, attrs, marks, none, none, []⟩) :=
      decodeFields?_optionalField (fun nodes given => field?_marks (markEach nodes given))
        (fun value => draftOf ⟨kind, attrs, value, none, none, []⟩) fun _ => rfl
    have contentRead : decodeFields? (draftOf ⟨kind, attrs, marks, none, none, []⟩)
        (optionalField "content" (content.map encodeNodes)) =
          some (draftOf ⟨kind, attrs, marks, content, none, []⟩) :=
      decodeFields?_optionalField (fun nodes given => field?_content (childEach nodes given))
        (fun value => draftOf ⟨kind, attrs, marks, value, none, []⟩) fun _ => rfl
    have textRead : decodeFields? (draftOf ⟨kind, attrs, marks, content, none, []⟩)
        (optionalField "text" (text.map Json.string)) =
          some (draftOf ⟨kind, attrs, marks, content, text, []⟩) :=
      decodeFields?_optionalField (fun _ _ => rfl)
        (fun value => draftOf ⟨kind, attrs, marks, content, value, []⟩) fun _ => rfl
    have othersRead : decodeFields? (draftOf ⟨kind, attrs, marks, content, text, []⟩) others =
        some (draftOf ⟨kind, attrs, marks, content, text, others⟩) :=
      decodeFields?_extra extra apart
    rw [toJson_eq, decode?]
    simp only [decodeFields?_append, kindRead, attrsRead, marksRead, contentRead, textRead,
      othersRead, Option.bind_some, finish?_draftOf]

/-! ## What is decoded -/

/-- The nodes of a list are proper, and the list nests less deep than a limit. -/
def ProperNodes (limit : Nat) (nodes : List Node) : Prop :=
  (∀ node ∈ nodes, node.IsProper) ∧ (encodeNodes nodes).nesting < limit

/-- A value is in order and nests less deep than a limit. -/
def ProperValue (limit : Nat) (value : Json) : Prop :=
  value.InOrder ∧ value.nesting < limit

/-- A field is proper and nests less deep than a limit. -/
def Field.IsProper (limit : Nat) : Field → Prop
  | .attrs value => ∀ members ∈ value, ProperValue limit (.object members)
  | .marks value => ∀ nodes ∈ value, ProperNodes limit nodes
  | .content value => ∀ nodes ∈ value, ProperNodes limit nodes
  | .other key value => key ∉ fieldNames ∧ ProperValue limit value
  | .kind _ => True
  | .text _ => True

/-- The fields that have been read of a node are proper and nest less deep than a limit. -/
structure Draft.IsProper (limit : Nat) (draft : Draft) : Prop where
  attrs : ∀ members ∈ draft.attrs.join, ProperValue limit (.object members)
  marks : ∀ nodes ∈ draft.marks.join, ProperNodes limit nodes
  content : ∀ nodes ∈ draft.content.join, ProperNodes limit nodes
  sorted : Keyed.Sorted draft.extra
  extra : ∀ entry ∈ draft.extra, entry.1 ∉ fieldNames ∧ ProperValue limit entry.2

section Draft

variable {limit : Nat} {draft next : Draft}

theorem empty_isProper : Draft.empty.IsProper limit where
  attrs := nofun
  marks := nofun
  content := nofun
  sorted := .nil
  extra := List.forall_mem_nil _

theorem add?_isProper {field : Field} (proper : draft.IsProper limit)
    (fieldProper : field.IsProper limit) (added : draft.add? field = some next) :
    next.IsProper limit := by
  cases field with
  | other key value =>
    cases added
    refine { proper with sorted := Keyed.sorted_insert proper.sorted, extra := fun entry member => ?_ }
    rcases Keyed.mem_insert member with rfl | old
    · exact fieldProper
    · exact proper.extra entry old
  | kind | text =>
    obtain ⟨-, given⟩ := Option.ite_none_left_eq_some.mp added
    cases given
    exact { proper with }
  | attrs =>
    obtain ⟨-, given⟩ := Option.ite_none_left_eq_some.mp added
    cases given
    exact { proper with attrs := fieldProper }
  | marks =>
    obtain ⟨-, given⟩ := Option.ite_none_left_eq_some.mp added
    cases given
    exact { proper with marks := fieldProper }
  | content =>
    obtain ⟨-, given⟩ := Option.ite_none_left_eq_some.mp added
    cases given
    exact { proper with content := fieldProper }

theorem nesting_optionalField {α : Type} {key : String} {encode : α → Json} {value : Option α}
    (each : ∀ inner ∈ value, (encode inner).nesting < limit) :
    ∀ entry ∈ optionalField key (value.map encode), entry.2.nesting < limit := by
  cases value with
  | none => exact List.forall_mem_nil _
  | some inner => exact List.forall_mem_singleton.mpr (each inner rfl)

theorem finish?_isProper {node : Node} (positive : 0 < limit) (proper : draft.IsProper limit)
    (finished : draft.finish? = some node) : node.IsProper ∧ node.toJson.nesting ≤ limit := by
  obtain ⟨attrs, marks, content, sorted, extra⟩ := proper
  obtain ⟨kind, -, rfl⟩ := Option.map_eq_some_iff.mp finished
  constructor
  · have inOrder : (Json.object draft.extra).InOrder :=
      Json.inOrder_object_iff.mpr ⟨sorted, fun entry member => (extra entry member).2.1⟩
    exact .intro (fun members given => (attrs members given).1) inOrder
      (fun entry member => (extra entry member).1) (fun nodes given => (marks nodes given).1)
      (fun nodes given => (content nodes given).1)
  · rw [toJson_eq, Json.nesting_object_le_iff]
    simp only [List.forall_mem_append, List.forall_mem_singleton]
    exact ⟨positive, ⟨⟨⟨⟨positive, nesting_optionalField fun members given => (attrs members given).2⟩,
      nesting_optionalField fun nodes given => (marks nodes given).2⟩,
      nesting_optionalField fun nodes given => (content nodes given).2⟩,
      nesting_optionalField fun _ _ => positive⟩, fun entry member => (extra entry member).2.2⟩

theorem decodeFields?_isProper {fields : List (String × Json)}
    (each : ∀ entry ∈ fields, ∀ field, field? entry.1 entry.2 = some field → field.IsProper limit)
    (proper : draft.IsProper limit) (read : decodeFields? draft fields = some next) :
    next.IsProper limit := by
  induction fields generalizing draft with
  | nil =>
    rw [decodeFields?] at read
    exact Option.some.inj read ▸ proper
  | cons entry rest ih =>
    obtain ⟨first, later⟩ := List.forall_mem_cons.mp each
    rw [decodeFields?_cons] at read
    obtain ⟨last, given, further⟩ := Option.bind_eq_some_iff.mp read
    obtain ⟨field, here, added⟩ := Option.bind_eq_some_iff.mp given
    exact ih later (add?_isProper proper (first field here) added) further

end Draft

theorem plainField?_isProper {limit : Nat} {key : String} {value : Json} {field : Field}
    (below : value.nesting < limit) (marks : key ≠ "marks") (content : key ≠ "content")
    (read : plainField? key value = some field) : field.IsProper limit := by
  have reordered : ProperValue limit value.ordered :=
    ⟨Json.inOrder_ordered value, Nat.lt_of_le_of_lt (Json.nesting_ordered_le value) below⟩
  unfold plainField? at read
  split at read <;> cases read
  case h_1 | h_6 | h_7 => trivial
  case h_3 => exact nofun
  case h_4 =>
    rintro members ⟨⟩
    exact reordered
  case h_9 noType noAttrs noText _ _ _ _ _ =>
    have apart : key ∉ fieldNames := by
      simp only [fieldNames, List.mem_cons, List.not_mem_nil, or_false, not_or]
      exact ⟨noType, noAttrs, marks, content, noText⟩
    exact ⟨apart, reordered⟩

theorem field?_isProper {limit : Nat} {key : String} {value : Json} {field : Field}
    (below : value.nesting < limit)
    (nodes : ∀ inner, decodeNodes? value = some (some inner) → ProperNodes limit inner)
    (read : field? key value = some field) : field.IsProper limit := by
  unfold field? at read
  split at read
  · obtain ⟨inner, given, rfl⟩ := Option.map_eq_some_iff.mp read
    rintro several rfl
    exact nodes several given
  split at read
  · obtain ⟨inner, given, rfl⟩ := Option.map_eq_some_iff.mp read
    rintro several rfl
    exact nodes several given
  · next marks content => exact plainField?_isProper below marks content read

theorem exists_of_mem_decodeItems? {items : List Json} {nodes : List Node} {node : Node}
    (read : decodeItems? items = some nodes) (member : node ∈ nodes) :
    ∃ item ∈ items, decode? item = some node := by
  induction items generalizing nodes with
  | nil =>
    rw [decodeItems?] at read
    cases read
    cases member
  | cons item rest ih =>
    rw [decodeItems?] at read
    split at read
    · next first others here later =>
      cases read
      rcases List.mem_cons.mp member with rfl | inside
      · exact ⟨item, List.mem_cons_self, here⟩
      · obtain ⟨other, given, found⟩ := ih later inside
        exact ⟨other, List.mem_cons_of_mem _ given, found⟩
    · cases read

theorem exists_of_decode? {json : Json} {node : Node} (read : decode? json = some node) :
    ∃ members draft, json = .object members ∧ decodeFields? .empty members = some draft ∧
      draft.finish? = some node := by
  unfold decode? at read
  split at read
  · next members =>
    obtain ⟨draft, fields, finished⟩ := Option.bind_eq_some_iff.mp read
    exact ⟨members, draft, rfl, fields, finished⟩
  · cases read

theorem exists_of_decodeNodes? {json : Json} {nodes : List Node}
    (read : decodeNodes? json = some (some nodes)) :
    ∃ items, json = .array items ∧ decodeItems? items = some nodes := by
  unfold decodeNodes? at read
  split at read
  · cases read
  · next items =>
    obtain ⟨several, given, same⟩ := Option.map_eq_some_iff.mp read
    cases same
    exact ⟨items, rfl, given⟩
  · cases read

/-- A node that is decoded is proper and is encoded no deeper than it was written, and so are the nodes
of a list. -/
theorem decode_isProper (json : Json) :
    (∀ node, decode? json = some node → node.IsProper ∧ node.toJson.nesting ≤ json.nesting) ∧
      ∀ nodes, decodeNodes? json = some (some nodes) → ProperNodes (json.nesting + 1) nodes := by
  -- The nodes of a list are the items of a value, and the lists are the members of a node: one is
  -- had from the other, a level further in.
  induction json using Json.value_induction with
  | scalar json noItems noMembers =>
    refine ⟨fun node read => ?_, fun nodes read => ?_⟩
    · obtain ⟨members, -, rfl, -⟩ := exists_of_decode? read
      cases noMembers
    · obtain ⟨items, rfl, -⟩ := exists_of_decodeNodes? read
      cases noItems
  | array items ih =>
    obtain ⟨positive, below⟩ :=
      Json.nesting_array_le_iff.mp (Nat.le_refl (Json.array items).nesting)
    refine ⟨fun node read => ?_, fun nodes read => ?_⟩
    · obtain ⟨members, -, same, -⟩ := exists_of_decode? read
      cases same
    · obtain ⟨others, same, given⟩ := exists_of_decodeNodes? read
      cases same
      have each : ∀ node ∈ nodes,
          node.IsProper ∧ node.toJson.nesting < (Json.array items).nesting := by
        intro node member
        obtain ⟨item, inside, found⟩ := exists_of_mem_decodeItems? given member
        obtain ⟨proper, shallow⟩ := (ih item inside).1 node found
        exact ⟨proper, Nat.lt_of_le_of_lt shallow (below item inside)⟩
      refine ⟨fun node member => (each node member).1, Nat.lt_succ_of_le ?_⟩
      exact Json.nesting_array_le_iff.mpr
        ⟨positive, List.forall_mem_map.mpr fun node member => (each node member).2⟩
  | object members ih =>
    obtain ⟨positive, below⟩ :=
      Json.nesting_object_le_iff.mp (Nat.le_refl (Json.object members).nesting)
    refine ⟨fun node read => ?_, fun nodes read => ?_⟩
    · obtain ⟨fields, draft, same, given, finished⟩ := exists_of_decode? read
      cases same
      have proper : draft.IsProper (Json.object members).nesting := by
        refine decodeFields?_isProper (fun entry member field here => ?_) empty_isProper given
        refine field?_isProper (below entry member) (fun nodes found => ?_) here
        obtain ⟨each, shallow⟩ := (ih entry member).2 nodes found
        exact ⟨each, Nat.lt_of_lt_of_le shallow (below entry member)⟩
      exact finish?_isProper positive proper finished
    · obtain ⟨items, same, -⟩ := exists_of_decodeNodes? read
      cases same

/-! ## Texts -/

theorem parse?_serialize_of_isProper {node : Node} (proper : node.IsProper)
    (exact : node.toJson.HasExactNumbers) (shallow : node.toJson.nesting ≤ Json.maxDepth) :
    Node.parse? node.serialize = some node := by
  rw [Node.parse?, Node.serialize, Json.readWritten?_text exact shallow, Option.bind_some,
    decode?_toJson proper]

theorem isProper_of_parse? {source : String} {node : Node} (parsed : Node.parse? source = some node) :
    node.IsProper ∧ node.toJson.nesting ≤ Json.maxDepth := by
  obtain ⟨json, read, decoded⟩ := Option.bind_eq_some_iff.mp parsed
  obtain ⟨proper, shallow⟩ := (decode_isProper json).1 node decoded
  exact ⟨proper, Nat.le_trans shallow (Json.nesting_le_of_readWritten? read)⟩

/-- Proper documents whose numbers are integers of 64 bits are read back from their texts, unless they
nest too deep, and any document with such numbers that is read is written as a text that is read and
written as itself. -/
theorem parse?_serialize :
    (∀ node : Node, node.IsProper → node.toJson.HasExactNumbers →
      node.toJson.nesting ≤ Json.maxDepth → Node.parse? node.serialize = some node) ∧
    ∀ (source : String) (node : Node), Node.parse? source = some node →
      node.toJson.HasExactNumbers →
        (Node.parse? node.serialize).map Node.serialize = some node.serialize := by
  refine ⟨fun node proper exact shallow => parse?_serialize_of_isProper proper exact shallow, ?_⟩
  intro source node parsed exact
  obtain ⟨proper, shallow⟩ := isProper_of_parse? parsed
  rw [parse?_serialize_of_isProper proper exact shallow, Option.map_some]

/-- A marked text with an attribute and two fields that have no meaning. -/
def greeting : Node :=
  ⟨"text", some [("level", .number (.whole 2))], some [.ofKind "bold"], none, some "\"Hi\"",
    [("draft", .bool false), ("tags", .array [.null])]⟩

/-- The same with its fields in another order and the content as null. -/
def greetingSource : Json :=
  .object [("tags", .array [.null]), ("text", .string "\"Hi\""), ("content", .null),
    ("marks", .array [.object [("type", .string "bold")]]), ("type", .string "text"),
    ("attrs", .object [("level", .number (.whole 2))]), ("draft", .bool false)]

theorem parse?_serialize_greeting :
    (greeting.IsProper ∧ greeting.toJson.HasExactNumbers ∧ greeting.toJson.nesting ≤ Json.maxDepth ∧
      Node.parse? greeting.serialize = some greeting) ∧
    Node.parse? greetingSource.text = some greeting ∧
      (Node.parse? greeting.serialize).map Node.serialize = some greeting.serialize := by
  have scalars : ∀ value : Json, value.items? = none → value.members? = none →
      (∀ number, value = .number number → number.IsExact) → value.HasExactNumbers :=
    fun _ noItems noMembers exact => (Json.throughout_scalar_iff noItems noMembers).mpr exact
  have two : (Json.number (.whole 2)).HasExactNumbers := by
    refine scalars _ rfl rfl ?_
    rintro number ⟨⟩
    exact ⟨by decide, by decide⟩
  have text (value : String) : (Json.string value).HasExactNumbers := scalars _ rfl rfl nofun
  have null : Json.null.HasExactNumbers := scalars _ rfl rfl nofun
  have no : (Json.bool false).HasExactNumbers := scalars _ rfl rfl nofun
  have exact : greeting.toJson.HasExactNumbers := by
    simp [greeting, Node.toJson, Node.ofKind, optionalField, nodesToJson,
      Json.hasExactNumbers_object_iff, Json.hasExactNumbers_array_iff, two, text, null, no]
  have sourceExact : greetingSource.HasExactNumbers := by
    simp [greetingSource, Json.hasExactNumbers_object_iff, Json.hasExactNumbers_array_iff, two, text,
      null, no]
  have decoded : decode? greetingSource = some greeting := rfl
  have proper := ((decode_isProper greetingSource).1 greeting decoded).1
  have parsed : Node.parse? greetingSource.text = some greeting := by
    rw [Node.parse?, Json.readWritten?_text sourceExact (by decide), Option.bind_some, decoded]
  exact ⟨⟨proper, exact, by decide, parse?_serialize.1 greeting proper exact (by decide)⟩, parsed,
    parse?_serialize.2 greetingSource.text greeting parsed exact⟩

end MessageTemplate.Document
