import MessageTemplate.Document.Indexing
import MessageTemplate.Document.Outputs
import MessageTemplate.Proofs.Path.Prefix
import MessageTemplate.Proofs.Path.Steps
import MessageTemplate.Proofs.Template.Reference
import MessageTemplate.Proofs.Text.Occurs

/-! # What is indexed

Indexing searches a text for a collection and looks at the characters around each occurrence, in
what the search has left of the text. Characters that no path holds part the text
(`insertIndexIn_append_cons`), so that in an output the path and the fallback are indexed each on
its own. In a path, an occurrence that leads on without starting the path stands behind a character
of a longer path, unless the search has just left the same collection behind: apart from this, a
path is indexed where its steps say (`insertIndex_join`). -/

namespace MessageTemplate

open Text

/-- Whether a step is a position or a name of letters, digits, underscores and hyphens. -/
def Segment.isWord : Segment → Bool
  | .key name => name ≠ "" && name.toList.all Template.isReferenceChar
  | .index position => position ≤ maxCount

/-- Steps of a path that starts with a name, all of them words or positions. -/
structure Path.Worded (segments : List Segment) : Prop where
  starts : ∃ name rest, segments = .key name :: rest
  all : ∀ segment ∈ segments, segment.isWord

/-! ## Steps of words -/

namespace Path

open Document

theorem isPathChar_of_isReferenceChar {c : Char} (plain : Template.isReferenceChar c = true) :
    isPathChar c = true := by
  simp only [Template.isReferenceChar, Bool.or_eq_true, decide_eq_true_eq] at plain
  simp only [isPathChar, Bool.or_eq_true, decide_eq_true_eq]
  tauto

section Steps

variable {segments : List Segment}

theorem isCleanChar_of_isReferenceChar {c : Char} (plain : Template.isReferenceChar c = true) :
    Segment.isCleanChar c = true := by
  simp [Segment.isCleanChar, Template.isBlank_of_isReferenceChar plain,
    Template.ne_of_isReferenceChar plain '.' (by decide),
    Template.ne_of_isReferenceChar plain '[' (by decide),
    Template.ne_of_isReferenceChar plain ']' (by decide)]

theorem isClean_of_isWord {segment : Segment} (word : segment.isWord) : segment.isClean := by
  cases segment with
  | index => rfl
  | key name =>
    obtain ⟨full, plain⟩ := Bool.and_eq_true_iff.mp word
    refine Bool.and_eq_true_iff.mpr ⟨full, List.all_eq_true.mpr fun c member => ?_⟩
    exact isCleanChar_of_isReferenceChar (List.all_eq_true.mp plain c member)

theorem isStepChar_toDigits (position : Nat) :
    (Nat.toDigits 10 position).all StepPath.isStepChar := by
  refine List.all_eq_true.mpr fun c member => isStepChar_of_isCleanChar ?_
  have digit := Nat.isDigit_of_mem_toDigits (by decide) (by decide) member
  exact isCleanChar_of_isReferenceChar (Template.isReferenceChar_of_isDigit digit)

theorem Worded.tidy (worded : Worded segments) : Tidy segments :=
  tidy_of_isClean worded.starts
    (fun segment member => isClean_of_isWord (worded.all segment member))
    fun _ member => of_decide_eq_true (worded.all _ member)

/-- A path is made of path characters and opening brackets. -/
theorem plain_of_joinFrom (words : ∀ segment ∈ segments, segment.isWord) :
    ∀ c ∈ joinFrom true segments, isPathChar c = true ∨ c = '[' := by
  induction segments with
  | nil => simp [joinFrom]
  | cons segment rest ih =>
    obtain ⟨first, later⟩ := List.forall_mem_cons.mp words
    cases segment with
    | key name =>
      have plain := (Bool.and_eq_true_iff.mp first).2
      simp only [joinFrom_true_key, List.forall_mem_cons, List.forall_mem_append]
      exact ⟨.inl rfl, fun c member =>
        .inl (isPathChar_of_isReferenceChar (List.all_eq_true.mp plain c member)), ih later⟩
    | index position =>
      simp only [joinFrom_true_index, List.forall_mem_cons, List.forall_mem_append]
      refine ⟨.inr trivial, fun c member => .inl ?_, .inl rfl, ih later⟩
      exact isPathChar_of_isReferenceChar (Template.isReferenceChar_of_isDigit
        (Nat.isDigit_of_mem_toDigits (by decide) (by decide) member))

theorem Worded.plain (worded : Worded segments) :
    ∀ c ∈ (join segments).toList, isPathChar c = true ∨ c = '[' := by
  obtain ⟨name, rest, rfl⟩ := worded.starts
  obtain ⟨first, later⟩ := List.forall_mem_cons.mp worded.all
  have plain := (Bool.and_eq_true_iff.mp first).2
  rw [toList_join (worded.tidy.all _ List.mem_cons_self), List.forall_mem_append]
  exact ⟨fun c member => .inl (isPathChar_of_isReferenceChar (List.all_eq_true.mp plain c member)),
    plain_of_joinFrom later⟩

theorem exists_of_append_eq {mark : Char} {left right before rest : List Char}
    (absent : mark ∉ left) (whole : left ++ right = before ++ mark :: rest) :
    ∃ more, right = more ++ mark :: rest := by
  rcases List.append_eq_append_iff.mp whole with ⟨more, -, split⟩ | ⟨more, split, behind⟩
  · exact ⟨more, split⟩
  · cases more with
    | nil => exact ⟨[], behind.symm⟩
    | cons c more =>
      obtain ⟨rfl, -⟩ := List.cons.inj behind
      exact absurd (by simp [split]) absent

/-- Behind an opening bracket, a position is closed. -/
theorem exists_position_of_joinFrom {before rest : List Char}
    (words : ∀ segment ∈ segments, segment.isWord)
    (whole : joinFrom true segments = before ++ '[' :: rest) :
    ∃ position tail, rest = Nat.toDigits 10 position ++ ']' :: tail := by
  induction segments generalizing before with
  | nil => simp [joinFrom] at whole
  | cons segment segments ih =>
    obtain ⟨first, later⟩ := List.forall_mem_cons.mp words
    cases segment with
    | key name =>
      have plain := (Bool.and_eq_true_iff.mp first).2
      have absent : '[' ∉ '.' :: name.toList := by
        simp only [List.mem_cons, not_or]
        refine ⟨by decide, fun member => ?_⟩
        exact absurd (List.all_eq_true.mp plain _ member) (by decide)
      rw [joinFrom_true_key, ← List.cons_append] at whole
      obtain ⟨more, whole⟩ := exists_of_append_eq absent whole
      exact ih later whole
    | index position =>
      rw [joinFrom_true_index] at whole
      cases before with
      | nil => exact ⟨position, _, (List.cons.inj whole).2.symm⟩
      | cons c before =>
        have absent : '[' ∉ Nat.toDigits 10 position ++ [']'] := by
          simp [not_mem_toDigits]
        have split : Nat.toDigits 10 position ++ [']'] ++ joinFrom true segments =
            before ++ '[' :: rest := by simpa using (List.cons.inj whole).2
        obtain ⟨more, split⟩ := exists_of_append_eq absent split
        exact ih later split

/-- In a path, a collection that leads on without starting it is part of a longer path. -/
theorem Worded.readsThrough {collection : List Segment} {before after : List Char}
    (worded : Worded segments) (wordedCollection : Worded collection)
    (whole : (join segments).toList = before ++ (join collection).toList ++ after)
    (inside : before ≠ []) : readsThrough before after = false := by
  obtain ⟨front, c, rfl⟩ : ∃ front c, before = front ++ [c] :=
    (List.eq_nil_or_concat' before).resolve_left inside
  have member : c ∈ (join segments).toList := by simp [whole]
  rcases worded.plain c member with joins | rfl
  · simp [Document.readsThrough, joins]
  -- behind a bracket, the collection would have to be the number there, which does not lead on
  by_contra leads
  have dotted : after.head? = some '.' := by
    simp only [Document.readsThrough, Bool.not_eq_false, Bool.and_eq_true] at leads
    exact of_decide_eq_true leads.2
  obtain ⟨more, rfl⟩ := List.head?_eq_some_iff.mp dotted
  obtain ⟨name, rest, rfl⟩ := worded.starts
  obtain ⟨first, others, rfl⟩ := wordedCollection.starts
  have tidy := worded.tidy.all _ List.mem_cons_self
  have tidyFirst := wordedCollection.tidy.all _ List.mem_cons_self
  have words := (List.forall_mem_cons.mp worded.all).2
  rw [toList_join tidy, toList_join tidyFirst] at whole
  have split : name.toList ++ joinFrom true rest =
      front ++ '[' :: (first.toList ++ (joinFrom true others ++ '.' :: more)) := by
    simpa using whole
  have absent : '[' ∉ name.toList := fun member =>
    absurd (List.all_eq_true.mp (isStepChar_of_isTidy tidy) _ member) (by decide)
  obtain ⟨between, split⟩ := exists_of_append_eq absent split
  obtain ⟨position, tail, digits⟩ := exists_position_of_joinFrom words split
  have stops : ∀ c ∈ (joinFrom true others ++ '.' :: more).head?,
      c ≠ ']' ∧ StepPath.isStepChar c = false := by
    cases others with
    | nil => simp [joinFrom, StepPath.isStepChar]
    | cons segment others =>
      cases segment <;> simp [joinFrom_true_key, joinFrom_true_index, StepPath.isStepChar]
  obtain ⟨-, behind⟩ := StepPath.append_inj_of_plain (isStepChar_of_isTidy tidyFirst)
    (isStepChar_toDigits position) (fun c head => (stops c head).2) (by simp [StepPath.isStepChar])
    digits
  exact (stops ']' (by simp [behind])).1 rfl

/-- A path leads on from another one through a dot if its steps do so with a name. -/
theorem Worded.prefix_dot_iff {collection : List Segment} (worded : Worded segments)
    (wordedCollection : Worded collection) :
    (join collection).toList ++ ['.'] <+: (join segments).toList ↔
      ∃ name rest, segments = collection ++ .key name :: rest := by
  constructor
  · rintro ⟨rest, whole⟩
    have dotted : (join segments).toList = (join collection).toList ++ '.' :: rest := by
      simp [← whole]
    obtain ⟨others, rfl⟩ := split?_prefix_of_dot wordedCollection.tidy.tight
      (split?_join wordedCollection.tidy) (split?_join worded.tidy) dotted
    rw [wordedCollection.tidy.legible.toList_join_append] at dotted
    obtain ⟨name, others, rfl, -⟩ := StepPath.joinFrom_eq_dot (List.append_cancel_left dotted)
    exact ⟨name, others, rfl⟩
  · rintro ⟨name, rest, rfl⟩
    rw [wordedCollection.tidy.legible.toList_join_append, joinFrom_true_key]
    exact ⟨name.toList ++ joinFrom true rest, by simp⟩

end Steps

end Path

namespace Document

open MessageTemplate.Path

/-- The steps of a path, with a position behind those of a collection if a name follows them. -/
def indexBehind (collection : List Segment) (position : Nat) (path : List Segment) : List Segment :=
  match collection.isPrefixOf path, path.drop collection.length with
  | true, .key name :: rest => collection ++ .index position :: .key name :: rest
  | _, _ => path

/-! ## The search -/

section Search

variable {collection text : List Char} (position : Nat)

theorem insertIndexIn_of_none (none : breakOn collection text = none) :
    insertIndexIn collection position text = text := by
  rw [insertIndexIn]
  split
  · rfl
  split
  · rfl
  · next found =>
    rw [none] at found
    contradiction

theorem insertIndexIn_of_some {before after : List Char} (full : collection ≠ [])
    (found : breakOn collection text = some (before, after)) :
    insertIndexIn collection position text =
      before ++ collection ++ (if readsThrough before after then indexText position else []) ++
        insertIndexIn collection position after := by
  rw [insertIndexIn, if_neg (by simpa using full)]
  split
  · next none =>
    rw [found] at none
    contradiction
  · next other =>
    cases found.symm.trans other
    rfl

/-- A collection leads on by a dot. -/
theorem exists_of_readsThrough {before after : List Char} (leads : readsThrough before after = true) :
    ∃ more, after = '.' :: more := by
  rw [readsThrough, Bool.and_eq_true, decide_eq_true_eq] at leads
  exact List.head?_eq_some_iff.mp leads.2

/-- Where a collection never leads on, nothing is indexed. -/
theorem insertIndexIn_of_not_infix (alone : ¬collection ++ ['.'] <:+: text) :
    insertIndexIn collection position text = text := by
  fun_induction insertIndexIn collection position text with
  | case1 => rfl
  | case2 => rfl
  | case3 text full before after found ih =>
    have whole := breakOn_eq_some found
    have stops : readsThrough before after = false := Bool.eq_false_iff.mpr fun leads => by
      obtain ⟨rest, rfl⟩ := exists_of_readsThrough leads
      exact alone ⟨before, rest, by rw [whole]; simp⟩
    have behind : ¬collection ++ ['.'] <:+: after := fun inside =>
      alone (whole ▸ inside.trans (List.suffix_append _ _).isInfix)
    rw [ih behind, stops, whole]
    simp

/-- A character that no path holds parts a text. -/
theorem insertIndexIn_append_cons {mark : Char} (absent : mark ∉ collection)
    (other : isPathChar mark = false) (right : List Char) :
    insertIndexIn collection position (text ++ mark :: right) =
      insertIndexIn collection position text ++ mark :: insertIndexIn collection position right := by
  by_cases full : collection = []
  · simp [insertIndexIn, full]
  fun_induction insertIndexIn collection position text with
  | case1 text empty => exact absurd (List.isEmpty_iff.mp empty) full
  | case2 text _ none =>
    have further := breakOn_append_cons right full absent none
    cases found : breakOn collection right with
    | none =>
      rw [found] at further
      rw [insertIndexIn_of_none position further, insertIndexIn_of_none position found]
    | some parts =>
      obtain ⟨before, after⟩ := parts
      rw [found] at further
      have same : readsThrough (text ++ mark :: before) after = readsThrough before after := by
        cases before with
        | nil => simp [readsThrough, other]
        | cons c before => simp [readsThrough, List.getLast?_cons]
      rw [insertIndexIn_of_some position full further, insertIndexIn_of_some position full found,
        same]
      simp
  | case3 text _ before after found ih =>
    have further := breakOn_append_of_eq_some (mark :: right) found
    have ends : mark ≠ '.' := by
      rintro rfl
      contradiction
    have same : readsThrough before (after ++ mark :: right) = readsThrough before after := by
      cases after with
      | nil => simp [readsThrough, ends]
      | cons c after => simp [readsThrough]
    rw [insertIndexIn_of_some position full further, same, ih]
    simp

/-- Characters that neither paths nor positions hold are replaced before or after indexing. -/
theorem insertIndexIn_map {change : Char → Char}
    (kept : ∀ d ∈ collection, ∀ c, change c = d ↔ c = d) (dot : ∀ c, change c = '.' ↔ c = '.')
    (joins : ∀ c, isPathChar (change c) = isPathChar c)
    (fixed : (indexText position).map change = indexText position) :
    insertIndexIn collection position (text.map change) =
      (insertIndexIn collection position text).map change := by
  by_cases full : collection = []
  · simp [insertIndexIn, full]
  have unchanged : collection.map change = collection :=
    (List.map_congr_left fun d member => (kept d member d).mpr rfl).trans (List.map_id' collection)
  fun_induction insertIndexIn collection position text with
  | case1 text empty => exact absurd (List.isEmpty_iff.mp empty) full
  | case2 text _ none =>
    exact insertIndexIn_of_none position (by rw [breakOn_map kept, none]; rfl)
  | case3 text _ before after found ih =>
    have further : breakOn collection (text.map change) =
        some (before.map change, after.map change) := by rw [breakOn_map kept, found]; rfl
    have same : readsThrough (before.map change) (after.map change) =
        readsThrough before after := by
      have stops : ((after.map change).head? = some '.') = (after.head? = some '.') := by
        cases after <;> simp [dot]
      have bounded : (before.map change).getLast?.any isPathChar =
          before.getLast?.any isPathChar := by
        cases last : before.getLast? <;> simp [last, joins]
      simp only [readsThrough, stops, bounded]
    rw [insertIndexIn_of_some position full further, same, ih]
    split <;> simp [fixed, unchanged]

theorem insertIndexIn_nil : insertIndexIn collection position [] = [] :=
  insertIndexIn_of_not_infix position (by simp)

theorem insertIndexIn_ne_nil (full : text ≠ []) : insertIndexIn collection position text ≠ [] := by
  fun_cases insertIndexIn collection position text with
  | case1 => exact full
  | case2 => exact full
  | case3 some =>
    have needle : collection ≠ [] := by simpa using some
    simp [needle]

end Search

/-! ## Outputs -/

section Outputs

variable {collection : String} (plain : ∀ c ∈ collection.toList, isPathChar c = true ∨ c = '[')
  (position : Nat)
include plain

theorem not_mem_of_plain {mark : Char} (other : isPathChar mark = false) (apart : mark ≠ '[') :
    mark ∉ collection.toList := fun member => by
  rcases plain mark member with joins | bracket
  · rw [other] at joins
    contradiction
  · exact apart bracket

/-- What no path holds parts the text on either side of it. -/
theorem insertIndexIn_parted {mark : Char} (other : isPathChar mark = false) (apart : mark ≠ '[')
    (left right : List Char) :
    insertIndexIn collection.toList position (left ++ mark :: right) =
      insertIndexIn collection.toList position left ++
        mark :: insertIndexIn collection.toList position right :=
  insertIndexIn_append_cons position (not_mem_of_plain plain other apart) other right

theorem insertIndexIn_front {mark : Char} (other : isPathChar mark = false) (apart : mark ≠ '[')
    (right : List Char) :
    insertIndexIn collection.toList position (mark :: right) =
      mark :: insertIndexIn collection.toList position right := by
  simpa [insertIndexIn_nil] using insertIndexIn_parted plain position other apart [] right

theorem insertIndex_withoutQuotes (text : String) :
    insertIndex (withoutQuotes text) collection position =
      withoutQuotes (insertIndex text collection position) := by
  have other : isPathChar '’' = isPathChar '\'' := by decide +kernel
  have curly : '’' ∉ collection.toList := not_mem_of_plain plain (other.trans rfl) (by decide)
  have straight : '\'' ∉ collection.toList := not_mem_of_plain plain rfl (by decide)
  simp only [insertIndex, withoutQuotes, String.toList_ofList]
  refine congrArg String.ofList (insertIndexIn_map position ?_ ?_ ?_ ?_)
  · intro d member c
    have first : d ≠ '’' := fun same => curly (same ▸ member)
    have second : d ≠ '\'' := fun same => straight (same ▸ member)
    by_cases quote : c = '\''
    · simp [quote, first.symm, second.symm]
    · simp [quote]
  · intro c
    by_cases quote : c = '\''
    · simp [quote]
    · simp [quote]
  · intro c
    by_cases quote : c = '\''
    · simp [quote, other]
    · simp [quote]
  · have absent : '\'' ∉ indexText position := by
      simp [indexText, Path.not_mem_toDigits]
    refine (List.map_congr_left fun c member => ?_).trans (List.map_id' _)
    exact if_neg fun quote : c = '\'' => absent (quote ▸ member)

/-- What stands between the braces of an output is indexed on its own. -/
theorem insertIndex_outputOf (inside : String) :
    insertIndex (outputOf inside) collection position =
      outputOf (insertIndex inside collection position) := by
  have front {mark : Char} := @insertIndexIn_front collection plain position mark
  have parted {mark : Char} := @insertIndexIn_parted collection plain position mark
  simp only [insertIndex, outputOf, String.toList_ofList, outputOpening, outputClosing,
    List.cons_append, List.nil_append]
  rw [front rfl (by decide), front rfl (by decide), front rfl (by decide), parted rfl (by decide),
    front rfl (by decide), front rfl (by decide), insertIndexIn_nil]

theorem insertIndex_default (path text : String) :
    insertIndex (path ++ " | default: '" ++ text ++ "'") collection position =
      insertIndex path collection position ++ " | default: '" ++
        insertIndex text collection position ++ "'" := by
  have front {mark : Char} := @insertIndexIn_front collection plain position mark
  have parted {mark : Char} := @insertIndexIn_parted collection plain position mark
  -- the name of the filter leads on nowhere
  have name : insertIndexIn collection.toList position "default".toList = "default".toList :=
    insertIndexIn_of_not_infix position fun inside =>
      absurd (inside.subset (by simp) : '.' ∈ "default".toList) (by decide)
  have whole : (path ++ " | default: '" ++ text ++ "'").toList =
      path.toList ++ ' ' :: '|' :: ' ' :: ("default".toList ++ ':' :: ' ' :: '\'' ::
        (text.toList ++ '\'' :: [])) := by
    simp
  rw [insertIndex, whole, parted rfl (by decide), front rfl (by decide), front rfl (by decide),
    parted rfl (by decide), front rfl (by decide), front rfl (by decide), parted rfl (by decide),
    insertIndexIn_nil, name]
  refine String.toList_inj.mp ?_
  simp [insertIndex]

omit plain in
theorem wrapOutput_of_ne {fallback : String} (full : fallback ≠ "") (path : String) :
    wrapOutput path (some fallback) =
      outputOf (path ++ " | default: '" ++ withoutQuotes fallback ++ "'") := by
  rw [wrapOutput, Option.filter_some, if_pos (by simpa using full)]

/-- In an output, the path and the fallback are indexed each on its own. -/
theorem insertIndex_wrapOutput (path : String) (fallback : Option String) :
    insertIndex (wrapOutput path fallback) collection position =
      wrapOutput (insertIndex path collection position)
        (fallback.map fun text => insertIndex text collection position) := by
  cases fallback with
  | none => exact insertIndex_outputOf plain position path
  | some text =>
    rw [Option.map_some]
    by_cases empty : text = ""
    · subst empty
      have same : insertIndex "" collection position = "" := by
        rw [insertIndex, String.toList_empty, insertIndexIn_nil]
      rw [same]
      exact insertIndex_outputOf plain position path
    · have given : insertIndex text collection position ≠ "" := by
        intro nothing
        have full : text.toList ≠ [] := mt String.toList_eq_nil_iff.mp empty
        rw [← String.toList_eq_nil_iff, insertIndex, String.toList_ofList] at nothing
        exact insertIndexIn_ne_nil position full nothing
      rw [wrapOutput_of_ne empty, wrapOutput_of_ne given, insertIndex_outputOf plain,
        ← insertIndex_withoutQuotes plain, insertIndex_default plain]

end Outputs

/-! ## Paths -/

section Whole

variable {collection text : List Char} (position : Nat)
  (bounded : ∀ before after, text = before ++ collection ++ after → before ≠ [] →
    readsThrough before after = false)
  (apart : ¬collection ++ collection ++ ['.'] <:+: text)
include bounded apart

/-- Behind an occurrence of the collection, nothing is indexed. -/
theorem insertIndexIn_rest {before rest : List Char} (whole : text = before ++ collection ++ rest) :
    insertIndexIn collection position rest = rest := by
  fun_induction insertIndexIn collection position rest generalizing before with
  | case1 => rfl
  | case2 => rfl
  | case3 rest full between after found ih =>
    have split := breakOn_eq_some found
    have further : text = before ++ collection ++ between ++ collection ++ after := by
      rw [whole, split]
      simp
    have stops : readsThrough between after = false := by
      cases between with
      | nil =>
        refine Bool.eq_false_iff.mpr fun leads => ?_
        obtain ⟨more, rfl⟩ := exists_of_readsThrough leads
        exact apart ⟨before, more, by rw [further]; simp⟩
      | cons c between =>
        have outside := bounded _ _ further (by simp)
        simpa [readsThrough, List.getLast?_append, List.getLast?_cons] using outside
    rw [ih further, stops, split]
    simp

/-- A collection that a text starts with is indexed if it leads on. -/
theorem insertIndexIn_start (full : collection ≠ []) {rest : List Char}
    (whole : text = collection ++ '.' :: rest) :
    insertIndexIn collection position text = collection ++ indexText position ++ '.' :: rest := by
  have found : breakOn collection text = some ([], '.' :: rest) := by
    rw [whole]
    cases collection with
    | nil => contradiction
    | cons c collection =>
      have cut := isPrefixOf?_append (c :: collection) ('.' :: rest)
      rw [List.cons_append] at cut ⊢
      rw [breakOn, cut]
  have rest := insertIndexIn_rest position bounded apart
    (show text = [] ++ collection ++ '.' :: rest from whole)
  rw [insertIndexIn_of_some position full found, rest]
  simp [readsThrough]

/-- A text that does not lead on from the collection is left alone. -/
theorem insertIndexIn_other (stops : ¬collection ++ ['.'] <+: text) :
    insertIndexIn collection position text = text := by
  by_cases full : collection = []
  · rw [insertIndexIn, if_pos (by simpa using full)]
  cases found : breakOn collection text with
  | none => exact insertIndexIn_of_none position found
  | some parts =>
    obtain ⟨before, after⟩ := parts
    have whole := breakOn_eq_some found
    have outside : readsThrough before after = false := by
      cases before with
      | nil =>
        refine Bool.eq_false_iff.mpr fun leads => ?_
        obtain ⟨more, rfl⟩ := exists_of_readsThrough leads
        exact stops ⟨more, by rw [whole]; simp⟩
      | cons c before => exact bounded _ _ whole (by simp)
    rw [insertIndexIn_of_some position full found, insertIndexIn_rest position bounded apart whole,
      outside]
    simpa using whole.symm

end Whole

section Main

variable {path collection : List Segment} (worded : Worded path)
  (wordedCollection : Worded collection)

theorem indexBehind_of_leads {name : String} {rest : List Segment} (position : Nat)
    (leads : path = collection ++ .key name :: rest) :
    indexBehind collection position path =
      collection ++ .index position :: .key name :: rest := by
  subst leads
  have starts : collection.isPrefixOf (collection ++ .key name :: rest) = true := by simp
  simp [indexBehind, starts]

theorem indexBehind_of_not_leads (position : Nat)
    (stops : ¬∃ name rest, path = collection ++ .key name :: rest) :
    indexBehind collection position path = path := by
  unfold indexBehind
  split
  · next name rest starts behind =>
    obtain ⟨others, rfl⟩ := List.isPrefixOf_iff_prefix.mp starts
    rw [List.drop_left] at behind
    exact absurd ⟨name, rest, by rw [behind]⟩ stops
  · rfl

include worded wordedCollection

/-- A path is indexed where its steps say, unless a collection stands right behind itself in it. -/
theorem insertIndex_join
    (apart : ¬(join collection ++ join collection ++ ".").toList <:+: (join path).toList)
    (position : Nat) :
    insertIndex (join path) (join collection) position =
      join (indexBehind collection position path) := by
  have bounded (before after : List Char)
      (whole : (join path).toList = before ++ (join collection).toList ++ after)
      (inside : before ≠ []) : readsThrough before after = false :=
    worded.readsThrough wordedCollection whole inside
  have apart : ¬(join collection).toList ++ (join collection).toList ++ ['.'] <:+:
      (join path).toList := by simpa using apart
  refine String.toList_inj.mp ?_
  rw [insertIndex, String.toList_ofList]
  by_cases leads : ∃ name rest, path = collection ++ .key name :: rest
  · obtain ⟨name, rest, rfl⟩ := leads
    have full : (join collection).toList ≠ [] := by
      obtain ⟨first, others, rfl⟩ := wordedCollection.starts
      have tidy := wordedCollection.tidy.all _ List.mem_cons_self
      simp [toList_join tidy, toList_ne_nil_of_isTidy tidy]
    have whole := wordedCollection.tidy.legible.toList_join_append (.key name :: rest)
    rw [joinFrom_true_key] at whole
    rw [insertIndexIn_start position bounded apart full whole,
      indexBehind_of_leads position rfl, wordedCollection.tidy.legible.toList_join_append,
      joinFrom_true_index, joinFrom_true_key]
    simp [indexText]
  · rw [indexBehind_of_not_leads position leads]
    exact insertIndexIn_other position bounded apart
      (mt (worded.prefix_dot_iff wordedCollection).mp leads)

/-- In an output of a path, the steps of the path are indexed behind those of the collection, unless
the collection stands right behind itself in the path. The fallback is indexed as a text, and stays
as it is unless the collection leads on in it. -/
theorem insertIndex_output_of_steps
    (apart : ¬(join collection ++ join collection ++ ".").toList <:+: (join path).toList)
    (position : Nat) (fallback : Option String) :
    insertIndex (wrapOutput (join path) fallback) (join collection) position =
        wrapOutput (join (indexBehind collection position path))
          (fallback.map fun text => insertIndex text (join collection) position) ∧
      ∀ text : String, ¬(join collection ++ ".").toList <:+: text.toList →
        insertIndex text (join collection) position = text := by
  refine ⟨?_, fun text alone => ?_⟩
  · rw [insertIndex_wrapOutput wordedCollection.plain,
      insertIndex_join worded wordedCollection apart]
  · rw [insertIndex, insertIndexIn_of_not_infix position (by simpa using alone),
      String.ofList_toList]

end Main

theorem insertIndex_output_of_itemsName :
    insertIndex (wrapOutput "payload.items.name" (some "none")) "payload.items" 1 =
      wrapOutput "payload.items[1].name" (some "none") := by
  have worded : Worded [.key "payload", .key "items", .key "name"] :=
    ⟨⟨_, _, rfl⟩, by decide +kernel⟩
  have wordedCollection : Worded [.key "payload", .key "items"] :=
    ⟨⟨_, _, rfl⟩, by decide +kernel⟩
  obtain ⟨indexed, fixed⟩ :=
    insertIndex_output_of_steps worded wordedCollection (by decide +kernel) 1 (some "none")
  have path : join [.key "payload", .key "items", .key "name"] = "payload.items.name" := by decide
  have collection : join [.key "payload", .key "items"] = "payload.items" := by decide
  have behind : join (indexBehind [.key "payload", .key "items"] 1
      [.key "payload", .key "items", .key "name"]) = "payload.items[1].name" := by decide
  rw [path, behind, Option.map_some, fixed "none" (by decide +kernel), collection] at indexed
  exact indexed

/-- A collection right behind itself, and a collection in a fallback, are indexed all the same. -/
theorem insertIndex_output_strays :
    insertIndex (wrapOutput (join [.key "aa", .key "b"]) none) (join [.key "a"]) 0 ≠
        wrapOutput (join (indexBehind [.key "a"] 0 [.key "aa", .key "b"])) none ∧
      insertIndex (wrapOutput (join [.key "payload", .key "title"]) (some "see payload.items.x"))
          (join [.key "payload", .key "items"]) 0 ≠
        wrapOutput (join (indexBehind [.key "payload", .key "items"] 0
          [.key "payload", .key "title"])) (some "see payload.items.x") := by
  decide +kernel

end Document

end MessageTemplate
