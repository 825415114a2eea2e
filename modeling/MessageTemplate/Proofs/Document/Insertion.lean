import MessageTemplate.Document.Nesting
import MessageTemplate.Proofs.Path.Written
import MessageTemplate.Proofs.Template.Filters
import MessageTemplate.Proofs.Text.Occurs

/-! # Putting positions into paths

A path in an attribute, as it is or wrapped into an output, is read back, also if it has positions
already (`bareExpression_of_marks`). Indexing puts a position behind it, provided that it occurs nowhere
else in the attribute (`insertIndex_around`). -/

namespace MessageTemplate.Document

open Text Template

/-! ## Paths with positions -/

/-- The characters of a path with positions: those of words, dots and brackets. -/
def isStepChar (c : Char) : Bool :=
  joinsWord c || c = '.' || c = '[' || c = ']'

/-- A path that starts and ends with a word, and in which brackets are closed. -/
structure IsSteady (path : List Char) : Prop where
  starts : ∃ c ∈ path.head?, isNameStart c
  ends : ∃ c ∈ path.getLast?, joinsWord c
  plain : ∀ c ∈ path, isStepChar c
  isSealed : Sealed '|' 0 path

theorem isReferenceChar_of_joinsWord {c : Char} (joins : joinsWord c = true) :
    isReferenceChar c = true := by
  rw [isReferenceChar, show (isAlphanumeric c || decide (c = '_')) = true from joins, Bool.true_or]

theorem joinsWord_of_isNameStart {c : Char} (starts : isNameStart c = true) :
    joinsWord c = true := by
  have plain := isReferenceChar_of_isNameStart starts
  have other := ne_of_isNameStart starts '-' (by decide)
  simpa [isReferenceChar, joinsWord, other] using plain

theorem isStepChar_of_joinsWord {c : Char} (joins : joinsWord c = true) : isStepChar c = true := by
  simp [isStepChar, joins]

/-- What is no step character does not stand in a path. -/
theorem IsSteady.not_mem {path : List Char} (steady : IsSteady path) {c : Char}
    (other : isStepChar c = false) : c ∉ path := fun member => by
  rw [steady.plain c member] at other
  contradiction

section Identifiers

variable {path name : List Char}

theorem isIdentifier_iff : isIdentifier name = true ↔
    (∃ c ∈ name.head?, isNameStart c) ∧ ∀ c ∈ name, joinsWord c := by
  cases name with
  | nil => simp [isIdentifier]
  | cons c rest =>
    simp only [isIdentifier, Bool.and_eq_true, List.all_eq_true, List.head?_cons, Option.mem_def,
      Option.some.injEq, exists_eq_left', List.forall_mem_cons]
    constructor
    · rintro ⟨starts, joins⟩
      exact ⟨starts, joinsWord_of_isNameStart starts, joins⟩
    · rintro ⟨starts, -, joins⟩
      exact ⟨starts, joins⟩

theorem exists_getLast?_of_isIdentifier (identifier : isIdentifier name = true) :
    ∃ c ∈ name.getLast?, joinsWord c := by
  obtain ⟨⟨c, first, -⟩, joins⟩ := isIdentifier_iff.mp identifier
  have full : name ≠ [] := by
    rintro rfl
    cases first
  exact ⟨_, List.getLast?_eq_some_getLast full, joins _ (List.getLast_mem full)⟩

theorem sealed_of_isIdentifier (identifier : isIdentifier name = true) : Sealed '|' 0 name :=
  sealed_of_words isApart_bar (List.all_eq_true.mpr fun c member =>
    isReferenceChar_of_joinsWord ((isIdentifier_iff.mp identifier).2 c member))

theorem IsSteady.of_isIdentifier (identifier : isIdentifier name = true) : IsSteady name where
  starts := (isIdentifier_iff.mp identifier).1
  ends := exists_getLast?_of_isIdentifier identifier
  plain c member := isStepChar_of_joinsWord ((isIdentifier_iff.mp identifier).2 c member)
  isSealed := sealed_of_isIdentifier identifier

/-- A path goes on with a name, whatever closed text is between them. -/
theorem IsSteady.append {link : List Char} (steady : IsSteady path)
    (plain : ∀ c ∈ link, isStepChar c) (isSealed : Sealed '|' 0 link)
    (identifier : isIdentifier name = true) : IsSteady (path ++ link ++ '.' :: name) where
  starts := by
    obtain ⟨c, first, starts⟩ := steady.starts
    exact ⟨c, by simp [Option.mem_def.mp first], starts⟩
  ends := by
    obtain ⟨c, last, joins⟩ := exists_getLast?_of_isIdentifier identifier
    exact ⟨c, by simp [List.getLast?_cons, Option.mem_def.mp last], joins⟩
  plain := by
    obtain ⟨-, joins⟩ := isIdentifier_iff.mp identifier
    simp only [List.forall_mem_append, List.forall_mem_cons]
    exact ⟨⟨steady.plain, plain⟩, by decide,
      fun c member => isStepChar_of_joinsWord (joins c member)⟩
  isSealed := by
    exact (steady.isSealed.append isSealed).append
      (sealed_dot.append (sealed_of_isIdentifier identifier))

theorem IsSteady.property (steady : IsSteady path) (identifier : isIdentifier name = true) :
    IsSteady (path ++ '.' :: name) := by
  simpa using steady.append (by simp) .nil identifier

/-- A path goes on behind a position. -/
theorem IsSteady.element (steady : IsSteady path) (position : Nat)
    (identifier : isIdentifier name = true) :
    IsSteady (path ++ indexText position ++ '.' :: name) := by
  have digits : ∀ c ∈ Nat.toDigits 10 position, c.isDigit = true := fun c member =>
    Nat.isDigit_of_mem_toDigits (by decide) (by decide) member
  have full : Nat.toDigits 10 position ≠ [] := Nat.toDigits_ne_nil
  have written : (ReferenceStep.position (Nat.toDigits 10 position)).isWritten = true := by
    simp only [ReferenceStep.isWritten, Bool.and_eq_true, Bool.not_eq_true',
      List.isEmpty_eq_false_iff, List.all_eq_true]
    exact ⟨full, digits⟩
  refine steady.append ?_ (ReferenceStep.sealed isApart_bar written) identifier
  simp only [indexText, List.cons_append, List.forall_mem_cons, List.forall_mem_append]
  refine ⟨by decide, fun c member => ?_, by decide, by simp⟩
  have joins : joinsWord c = true := by
    have plain := isReferenceChar_of_isDigit (digits c member)
    have other : c ≠ '-' := by
      rintro rfl
      exact absurd (digits _ member) (by decide)
    simpa [isReferenceChar, joinsWord, other] using plain
  exact isStepChar_of_joinsWord joins

theorem IsSteady.dotted {names : List (List Char)} (steady : IsSteady path)
    (identifiers : ∀ name ∈ names, isIdentifier name = true) : IsSteady (path ++ dotted names) := by
  induction names generalizing path with
  | nil => simpa [Document.dotted] using steady
  | cons name rest ih =>
    obtain ⟨first, others⟩ := List.forall_mem_cons.mp identifiers
    simpa [Document.dotted] using ih (steady.property first) others

end Identifiers

/-! ## Finding a path -/

/-- A text that is not empty is found in front of what has none of its characters, if at all. -/
theorem infix_of_infix_append {needle left right : List Char} (full : needle ≠ [])
    (apart : ∀ c ∈ right, c ∉ needle) (inside : needle <:+: left ++ right) : needle <:+: left := by
  obtain ⟨before, after, whole⟩ := inside
  rcases List.append_eq_append_iff.mp whole with ⟨rest, rfl, -⟩ | ⟨rest, joined, rfl⟩
  · exact ⟨before, rest, rfl⟩
  · obtain rfl | ⟨front, last, rfl⟩ := List.eq_nil_or_concat' rest
    · exact ⟨before, [], by simpa using joined⟩
    · have ends : last ∈ needle := by
        have lasts := congrArg List.getLast? joined
        rw [List.getLast?_append_of_ne_nil _ full, ← List.append_assoc,
          List.getLast?_concat] at lasts
        exact List.mem_of_getLast? lasts
      exact absurd ends (apart last (by simp))

/-- A position is put behind the only occurrence of a path, if that leads on. -/
theorem insertIndexIn_append {path lead more : List Char} (steady : IsSteady path)
    (opens : ∀ c ∈ lead, isNameStart c = false)
    (bounded : ∀ c ∈ lead.getLast?, isPathChar c = false) (leads : more.head? = some '.')
    (alone : ¬path <:+: more) (position : Nat) :
    insertIndexIn path position (lead ++ path ++ more) =
      lead ++ path ++ indexText position ++ more := by
  obtain ⟨c, first, starts⟩ := steady.starts
  obtain ⟨rest, rfl⟩ : ∃ rest, path = c :: rest := List.head?_eq_some_iff.mp first
  have absent : c ∉ lead := fun member => by
    rw [opens c member] at starts
    contradiction
  have found := @breakOn_append c rest lead absent more
  have through : readsThrough lead more = true := by
    simp only [readsThrough, leads, decide_true, Bool.and_true, Bool.not_eq_true']
    cases last : lead.getLast? with
    | none => rfl
    | some c => exact bounded c last
  have remains : insertIndexIn (c :: rest) position more = more := by
    rw [insertIndexIn, if_neg (by simp)]
    split
    · rfl
    · next given => cases (breakOn_eq_none alone).symm.trans given
  rw [insertIndexIn, if_neg (by simp)]
  split
  · next given => cases found.symm.trans given
  · next before after given =>
    cases found.symm.trans given
    rw [if_pos through, remains]

/-! ## Frames -/

namespace Frame

/-- In front of a path, the lead of a frame joins nothing. -/
structure IsClear (frame : Frame) : Prop where
  opens : ∀ c ∈ frame.lead, isNameStart c = false
  bounded : ∀ c ∈ frame.lead.getLast?, isPathChar c = false

/-- Around a path, the frame is nothing or an output. -/
structure IsBare (frame : Frame) : Prop extends frame.IsClear where
  closes : ∀ c ∈ frame.tail, isStepChar c = false
  reads : ∀ {path : List Char}, IsSteady path →
    bareExpression (frame.around path) = String.ofList path

end Frame

/-- A position is put behind a path in its frame. -/
theorem insertIndex_around {frame : Frame} {path more : List Char} (steady : IsSteady path)
    (clear : frame.IsClear) (leads : more.head? = some '.') (alone : ¬path <:+: more ++ frame.tail)
    (position : Nat) :
    insertIndex (frame.around (path ++ more)) (String.ofList path) position =
      frame.around (path ++ indexText position ++ more) := by
  have further : (more ++ frame.tail).head? = some '.' := by simp [leads]
  have inserted := insertIndexIn_append steady clear.opens clear.bounded further alone position
  simp only [insertIndex, Frame.around, String.toList_ofList]
  simpa using congrArg String.ofList inserted

/-! ## Reading a path back -/

theorem dropRepeated_eq_self {mark : Char} {needle text : List Char}
    (other : ∀ c ∈ text.head?, c ≠ mark) : dropRepeated (mark :: needle) text = text := by
  rw [dropRepeated, if_neg (by simp)]
  split
  · next given =>
    rw [isPrefixOf?_eq_some given] at other
    exact absurd rfl (other mark rfl)
  · rfl

theorem dropRepeated_append (needle rest : List Char) :
    dropRepeated needle (needle ++ rest) = dropRepeated needle rest := by
  by_cases empty : needle = []
  · rw [empty, List.nil_append]
  · rw [dropRepeated, if_neg (by simpa using empty)]
    split
    · next given => cases (isPrefixOf?_append needle rest).symm.trans given; rfl
    · next given => cases (isPrefixOf?_append needle rest).symm.trans given

/-- A path neither starts nor ends with a blank. -/
theorem IsSteady.tight {path : List Char} (steady : IsSteady path) : Tight path := by
  obtain ⟨c, first, starts⟩ := steady.starts
  obtain ⟨d, last, joins⟩ := steady.ends
  constructor
  · intro other given
    obtain rfl : c = other := Option.some.inj (first.symm.trans given)
    exact isBlank_of_isReferenceChar (isReferenceChar_of_isNameStart starts)
  · intro other given
    obtain rfl : d = other := Option.some.inj (last.symm.trans given)
    exact isBlank_of_isReferenceChar (isReferenceChar_of_joinsWord joins)

section Gaps

variable {path gap : List Char} (steady : IsSteady path) (isGap : IsGap gap)
include steady isGap

/-- Neither a path nor a gap in front of it starts with a mark. -/
theorem head?_gap_ne {mark : Char} (dark : isBlank mark = false) (other : isNameStart mark = false)
    (tail : List Char) : ∀ c ∈ (gap ++ path ++ tail).head?, c ≠ mark := by
  obtain ⟨d, first, starts⟩ := steady.starts
  intro c front
  cases gap with
  | nil =>
    obtain rfl : d = c := by simpa [Option.mem_def.mp first] using front
    exact ne_of_isNameStart starts mark other
  | cons blank gap =>
    obtain rfl : blank = c := by simpa using front
    exact ne_of_isBlank (isGap blank List.mem_cons_self) mark dark

/-- Neither a path nor a gap behind it ends with a mark. -/
theorem getLast?_gap_ne {mark : Char} (dark : isBlank mark = false)
    (other : isStepChar mark = false) (lead : List Char) : ∀ c ∈ (lead ++ path ++ gap).getLast?, c ≠ mark := by
  obtain ⟨d, last, -⟩ := steady.ends
  rintro c back rfl
  rw [List.append_assoc, List.getLast?_append, List.getLast?_append, Option.mem_def.mp last] at back
  cases ends : gap.getLast? with
  | none =>
    obtain rfl : d = c := by simpa [ends] using back
    exact steady.not_mem other (List.mem_of_getLast? last)
  | some blank =>
    obtain rfl : blank = c := by simpa [ends] using back
    exact ne_of_isBlank (isGap _ (List.mem_of_getLast? ends)) _ dark rfl

/-- The base of an expression without filters is a path between gaps. -/
theorem splitFilters_gaps :
    (splitFilters (String.ofList (gap ++ path ++ gap))).1 = String.ofList path := by
  have blanks : Sealed '|' 0 gap := isGap.sealed (by decide) 0
  have whole : splitTopLevel '|' (gap ++ path ++ gap) = [gap ++ path ++ gap] :=
    ((blanks.append steady.isSealed).append blanks).whole
  rw [splitFilters, String.toList_ofList, whole]
  exact congrArg String.ofList ((isGap.trim_around isGap path).trans
    (trim_eq_self steady.tight))

/-- A path between gaps and between the marks of an output, or between none, is read as the path. -/
theorem bareExpression_of_marks {value : String} {lead tail : List Char}
    (whole : value.toList = lead ++ (gap ++ path ++ gap) ++ tail) (tight : Tight value.toList)
    (marks : lead = [] ∧ tail = [] ∨ lead = outputOpening ∧ tail = outputClosing) :
    bareExpression value = String.ofList path := by
  have opened : dropRepeated outputOpening value.toList = gap ++ path ++ gap ++ tail := by
    have start : ∀ c ∈ (gap ++ path ++ gap ++ tail).head?, c ≠ '\x7b' := by
      rw [List.append_assoc]
      exact head?_gap_ne steady isGap (by decide) (by decide) (gap ++ tail)
    rcases marks with ⟨rfl, -⟩ | ⟨rfl, -⟩
    · rw [whole]
      exact dropRepeated_eq_self start
    · rw [whole, List.append_assoc, dropRepeated_append]
      exact dropRepeated_eq_self start
  have closed : dropRepeatedEnd outputClosing (gap ++ path ++ gap ++ tail) =
      gap ++ path ++ gap := by
    have stop : dropRepeated outputClosing.reverse (gap ++ path ++ gap).reverse =
        (gap ++ path ++ gap).reverse :=
      dropRepeated_eq_self fun c first =>
        getLast?_gap_ne steady isGap (by decide) (by decide) gap c (List.head?_reverse ▸ first)
    rcases marks with ⟨-, rfl⟩ | ⟨-, rfl⟩
    · rw [dropRepeatedEnd, List.append_nil, stop, List.reverse_reverse]
    · rw [dropRepeatedEnd, List.reverse_append, dropRepeated_append, stop, List.reverse_reverse]
  have starts : (gap ++ path ++ gap).dropWhile (· = '-') = gap ++ path ++ gap :=
    dropWhile_eq_self fun c first => by
      simpa using head?_gap_ne steady isGap (by decide) (by decide) gap c first
  have ends : dropEndWhile (· = '-') (gap ++ path ++ gap) = gap ++ path ++ gap :=
    dropEndWhile_eq_self fun c last => by
      simpa using getLast?_gap_ne steady isGap (by decide) (by decide) gap c last
  simp only [bareExpression, trim_eq_self tight, opened, closed, starts, ends,
    splitFilters_gaps steady isGap]

end Gaps

namespace Frame

theorem isClear_output (fallback : Option String) : (output fallback).IsClear where
  opens := by
    simp only [output, outputOpening, List.cons_append, List.nil_append, List.mem_cons,
      List.not_mem_nil, or_false, forall_eq_or_imp, forall_eq]
    decide
  bounded c last := by
    obtain rfl : ' ' = c := Option.some.inj last
    decide

theorem isBare_bare : bare.IsBare where
  opens := by simp [bare]
  bounded := by simp [bare]
  closes := by simp [bare]
  reads {path} steady := by
    have whole : (bare.around path).toList = [] ++ ([] ++ path ++ []) ++ [] := by
      simp [around, bare]
    refine bareExpression_of_marks steady (by simp [IsGap]) whole ?_ (.inl ⟨rfl, rfl⟩)
    simpa [whole] using steady.tight

theorem isBare_output : (output none).IsBare where
  toIsClear := isClear_output none
  closes c member := by
    obtain rfl | rfl : c = ' ' ∨ c = '\x7d' := by simpa [output, outputClosing] using member
    · decide
    · decide
  reads {path} steady := by
    have whole : ((output none).around path).toList =
        outputOpening ++ ([' '] ++ path ++ [' ']) ++ outputClosing := by
      simp [around, output]
    refine bareExpression_of_marks steady (by simp [IsGap]; decide) whole ?_ (.inr ⟨rfl, rfl⟩)
    rw [whole]
    constructor
    · rintro c first
      obtain rfl : '\x7b' = c := Option.some.inj first
      decide
    · rintro c last
      rw [List.getLast?_append] at last
      obtain rfl : '\x7d' = c := Option.some.inj last
      decide

end Frame

namespace Form

theorem isBare_eachFrame : (form : Form) → form.eachFrame.IsBare
  | written => Frame.isBare_bare
  | wrapped _ => Frame.isBare_output

theorem isClear_frame (shown : Node) : (form : Form) → (form.frame shown).IsClear
  | written => Frame.isBare_bare.toIsClear
  | wrapped _ => Frame.isClear_output _

end Form

/-! ## Indexed attributes -/

/-- An attribute that is a text gets a position behind the occurrences of a collection that lead on. -/
def indexValue (collection : String) (position : Nat) : Json → Json
  | .string value => .string (insertIndex value collection position)
  | value => value

section Indexing

variable {collection : String} {position : Nat} {key : String} {attrs : Keyed Json}

theorem get?_indexAttr_self : Keyed.get? key (indexAttr collection position attrs key) =
    (Keyed.get? key attrs).map (indexValue collection position) := by
  unfold indexAttr
  split
  · next value held => rw [Keyed.get?_insert_self, held]; rfl
  · next other =>
    cases held : Keyed.get? key attrs with
    | none => rfl
    | some value =>
      cases value with
      | string value => exact absurd held (other value)
      | _ => rfl

theorem get?_indexAttr_of_ne {other : String} (differs : key ≠ other) :
    Keyed.get? key (indexAttr collection position attrs other) = Keyed.get? key attrs := by
  unfold indexAttr
  split
  · exact Keyed.get?_insert_of_ne _ _ differs
  · rfl

theorem get?_foldl_indexAttr_of_not_mem {keys : List String} (absent : key ∉ keys) :
    Keyed.get? key (keys.foldl (indexAttr collection position) attrs) = Keyed.get? key attrs := by
  induction keys generalizing attrs with
  | nil => rfl
  | cons first rest ih =>
    obtain ⟨differs, others⟩ := List.ne_and_not_mem_of_not_mem_cons absent
    rw [List.foldl_cons, ih others, get?_indexAttr_of_ne differs]

theorem get?_foldl_indexAttr {keys : List String} (distinct : keys.Nodup) (listed : key ∈ keys) :
    Keyed.get? key (keys.foldl (indexAttr collection position) attrs) =
      (Keyed.get? key attrs).map (indexValue collection position) := by
  induction keys generalizing attrs with
  | nil => contradiction
  | cons first rest ih =>
    obtain ⟨fresh, distinct⟩ := List.nodup_cons.mp distinct
    rw [List.foldl_cons]
    rcases List.mem_cons.mp listed with rfl | later
    · rw [get?_foldl_indexAttr_of_not_mem fresh, get?_indexAttr_self]
    · have differs : key ≠ first := fun same => fresh (same ▸ later)
      rw [ih distinct later, get?_indexAttr_of_ne differs]

theorem indexAllPaths_eq_map (nodes : List Node) :
    indexAllPaths collection position nodes = nodes.map (indexPaths collection position) := by
  induction nodes with
  | nil => rw [indexAllPaths]; rfl
  | cons node rest ih => rw [indexAllPaths, ih, List.map_cons]

/-- The attributes of a node are indexed, and so are the nodes in it. -/
theorem indexPaths_eq (node : Node) :
    indexPaths collection position node = { node with
      attrs := node.attrs.map (indexAttrs collection position node.kind)
      marks := node.marks.map (List.map (indexPaths collection position))
      content := node.content.map (List.map (indexPaths collection position)) } := by
  obtain ⟨kind, attrs, marks, content, text, extra⟩ := node
  cases marks <;> cases content <;> simp [indexPaths, indexAllPaths_eq_map]

theorem Node.nodup_indexedAttributes (node : Node) : node.indexedAttributes.Nodup := by
  unfold indexedAttributes
  cases node.classify <;> decide

theorem attr?_indexPaths {node : Node} (listed : key ∈ node.indexedAttributes) :
    (indexPaths collection position node).attr? key =
      (node.attr? key).map (indexValue collection position) := by
  rw [indexPaths_eq, Node.attr?, Node.attr?]
  cases node.attrs with
  | none => rfl
  | some attrs => exact get?_foldl_indexAttr node.nodup_indexedAttributes listed

theorem attr?_indexPaths_of_not_mem {node : Node} (absent : key ∉ node.indexedAttributes) :
    (indexPaths collection position node).attr? key = node.attr? key := by
  rw [indexPaths_eq, Node.attr?, Node.attr?]
  cases node.attrs with
  | none => rfl
  | some attrs => exact get?_foldl_indexAttr_of_not_mem absent

theorem children_indexPaths (node : Node) : (indexPaths collection position node).children =
    node.children.map (indexPaths collection position) := by
  rw [indexPaths_eq, Node.children, Node.children]
  cases node.content <;> rfl

theorem iterations?_indexPaths (node : Node) :
    (indexPaths collection position node).iterations? = node.iterations? := by
  have absent : "iterations" ∉ node.indexedAttributes := by
    unfold Node.indexedAttributes
    cases node.classify <;> decide
  rw [Node.iterations?, Node.iterations?, attr?_indexPaths_of_not_mem absent]

end Indexing

end MessageTemplate.Document
