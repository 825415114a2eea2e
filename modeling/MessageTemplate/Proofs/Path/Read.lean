import MessageTemplate.Proofs.Path.Written

/-! # What is read from a path

Whatever a path is, the names read from it hold neither dots nor closing brackets, its positions
are counts, and its first step is a property. So a path is tidy as soon as its names are: the
forms that the library brings it into, the usual one and the one without positions, are read as
the same properties. -/

namespace MessageTemplate

open Text

/-- A step that may be read: its name holds neither a dot nor a closing bracket, or its position
is a count. -/
def Segment.Fits : Segment → Prop
  | .key name => '.' ∉ name.toList ∧ ']' ∉ name.toList
  | .index position => position ≤ maxCount

namespace Path

theorem le_of_count? {text : List Char} {value : Nat} (counted : count? text = some value) :
    value ≤ maxCount := by
  unfold count? at counted
  obtain ⟨-, small⟩ := Option.filter_eq_some_iff.mp counted
  exact of_decide_eq_true small

theorem fits_key {name text : List Char} (kept : ∀ c ∈ name, c ∈ text) (dotless : '.' ∉ text)
    (unclosed : ']' ∉ text) : (Segment.key (String.ofList name)).Fits := by
  constructor
  · rw [String.toList_ofList]
    exact fun member => dotless (kept _ member)
  · rw [String.toList_ofList]
    exact fun member => unclosed (kept _ member)

theorem fits_of_ofBracket? {inner : List Char} {segment : Segment}
    (read : Segment.ofBracket? inner = some segment) (dotless : '.' ∉ inner)
    (unclosed : ']' ∉ inner) : segment.Fits := by
  unfold Segment.ofBracket? at read
  split at read
  · next position counted =>
    cases read
    exact le_of_count? counted
  · split at read
    · cases read
    · next quote rest _ =>
      split at read
      · cases read
        exact fits_key (fun c member => List.mem_cons_of_mem _ (List.dropLast_subset _ member))
          dotless unclosed
      · cases read
        exact fits_key (fun c member => member) dotless unclosed

theorem fits_of_brackets? {text : List Char} {segments : List Segment}
    (read : brackets? text = some segments) (dotless : '.' ∉ text) :
    ∀ segment ∈ segments, segment.Fits := by
  fun_induction brackets? text generalizing segments with
  | case1 => cases read; simp
  | case2 => cases read
  | case3 rest inner after cut ih =>
    obtain ⟨whole, unclosed⟩ := breakAt_eq_some cut
    obtain ⟨first, inside, read⟩ := Option.bind_eq_some_iff.mp read
    obtain ⟨others, behind, read⟩ := Option.bind_eq_some_iff.mp read
    cases read
    have within : ∀ c ∈ inner ++ ']' :: after, c ∈ '[' :: rest := fun c member =>
      List.mem_cons_of_mem _ (whole ▸ member)
    intro segment member
    rcases List.mem_cons.mp member with rfl | later
    · refine fits_of_ofBracket? inside (fun dot => dotless (within _ ?_))
        fun close => unclosed (mem_of_mem_trim close)
      exact List.mem_append_left _ (mem_of_mem_trim dot)
    · refine ih behind (fun dot => dotless (within _ ?_)) segment later
      exact List.mem_append_right _ (List.mem_cons_of_mem _ dot)
  | case4 => cases read

/-- The text between two dots is a property name and brackets behind it, and one of both is there. -/
theorem part?_eq_some {text : List Char} {segments : List Segment}
    (read : part? text = some segments) :
    ∃ name brackets others, text = name ++ brackets ∧ '[' ∉ name ∧ ']' ∉ name ∧
      brackets? brackets = some others ∧
      (name = [] ∧ brackets ≠ [] ∧ segments = others ∨
        name ≠ [] ∧ segments = .key (String.ofList name) :: others) := by
  rw [part?] at read
  split at read
  · cases read
  · next accepted =>
    obtain ⟨others, behind, rfl⟩ := Option.map_eq_some_iff.mp read
    simp only [Bool.or_eq_true, not_or, List.isEmpty_iff, List.contains_iff_mem] at accepted
    have whole := List.takeWhile_append_dropWhile (p := (· ≠ '[')) (l := text)
    have unopened : '[' ∉ text.takeWhile (· ≠ '[') := by
      intro opened
      have := List.all_eq_true.mp List.all_takeWhile _ opened
      simp at this
    refine ⟨_, _, others, whole.symm, unopened, accepted.2, behind, ?_⟩
    cases named : text.takeWhile (· ≠ '[') with
    | nil =>
      rw [named, List.nil_append] at whole
      exact .inl ⟨rfl, fun empty => accepted.1 (whole.symm.trans empty), rfl⟩
    | cons c name => exact .inr ⟨List.cons_ne_nil c name, rfl⟩

theorem fits_of_part? {text : List Char} {segments : List Segment}
    (read : part? text = some segments) (dotless : '.' ∉ text) :
    ∀ segment ∈ segments, segment.Fits := by
  obtain ⟨name, brackets, others, rfl, -, unclosed, behind, ⟨-, -, rfl⟩ | ⟨-, rfl⟩⟩ :=
    part?_eq_some read
  · exact fits_of_brackets? behind fun dot => dotless (List.mem_append_right _ dot)
  · refine List.forall_mem_cons.mpr ⟨?_, ?_⟩
    · exact fits_key (fun c member => member)
        (fun dot => dotless (List.mem_append_left _ dot)) unclosed
    · exact fits_of_brackets? behind fun dot => dotless (List.mem_append_right _ dot)

theorem parts?_append_dot_eq_some {left right : List Char} {segments : List Segment} :
    parts? (left ++ '.' :: right) = some segments ↔
      ∃ first others, parts? left = some first ∧ parts? right = some others ∧
        first ++ others = segments := by
  rw [parts?_append_dot]
  cases parts? left with
  | none => simp
  | some first =>
    cases parts? right with
    | none => simp
    | some others => simp

theorem fits_of_parts? {text : List Char} {segments : List Segment}
    (read : parts? text = some segments) : ∀ segment ∈ segments, segment.Fits := by
  induction text using dotted_induction generalizing segments with
  | single text plain =>
    rw [parts?_of_not_mem plain] at read
    exact fits_of_part? read plain
  | more left right plain ih =>
    obtain ⟨first, others, before, behind, rfl⟩ := parts?_append_dot_eq_some.mp read
    rw [parts?_of_not_mem plain] at before
    intro segment member
    rcases List.mem_append.mp member with inside | later
    · exact fits_of_part? before plain segment inside
    · exact ih behind segment later

theorem split?_eq_some {path : String} {segments : List Segment} :
    split? path = some segments ↔
      (trim path.toList).head? ≠ some '[' ∧ parts? (trim path.toList) = some segments := by
  rw [split?]
  split
  · next opened => simp [opened]
  · next unopened => simp [unopened]

theorem exists_key_of_part? {text : List Char} {segments : List Segment}
    (read : part? text = some segments) (unopened : text.head? ≠ some '[') :
    ∃ name rest, segments = .key name :: rest ∧ name.toList.head? = text.head? := by
  cases text with
  | nil => cases read
  | cons c text =>
    have other : c ≠ '[' := fun same => unopened (congrArg some same)
    rw [part?, List.takeWhile_cons_of_pos (by simpa using other)] at read
    split at read
    · cases read
    · obtain ⟨others, -, rfl⟩ := Option.map_eq_some_iff.mp read
      exact ⟨_, others, rfl, by simp⟩

/-- The first step of a path is a property, whose name does not start with a blank. -/
theorem exists_key_of_split? {path : String} {segments : List Segment}
    (read : split? path = some segments) :
    ∃ name rest, segments = .key name :: rest ∧ ∀ c ∈ name.toList.head?, isBlank c = false := by
  obtain ⟨unopened, read⟩ := split?_eq_some.mp read
  have dark := (tight_trim path.toList).1
  generalize trim path.toList = text at unopened read dark
  cases cut : breakAt '.' text with
  | none =>
    rw [parts?_of_not_mem (breakAt_eq_none_iff.mp cut)] at read
    obtain ⟨name, rest, rfl, first⟩ := exists_key_of_part? read unopened
    exact ⟨name, rest, rfl, by rwa [first]⟩
  | some sides =>
    obtain ⟨left, right⟩ := sides
    obtain ⟨rfl, plain⟩ := breakAt_eq_some cut
    obtain ⟨first, others, before, -, rfl⟩ := parts?_append_dot_eq_some.mp read
    rw [parts?_of_not_mem plain] at before
    have full : left ≠ [] := by
      rintro rfl
      cases before
    rw [List.head?_append_of_ne_nil _ full] at unopened dark
    obtain ⟨name, rest, rfl, first⟩ := exists_key_of_part? before unopened
    exact ⟨name, rest ++ others, rfl, by rwa [first]⟩

/-! ## Tidy paths -/

/-- Whether a text is a path whose steps are read back when they are written. -/
def isTidy (path : String) : Bool :=
  (split? path).any fun segments =>
    segments.all Segment.isTidy &&
      (segments.filterMap Segment.key?).getLast?.all fun name => trimEnd name.toList = name.toList

theorem exists_tidy_of_isTidy {path : String} (tidy : isTidy path) :
    ∃ segments, split? path = some segments ∧ Tidy segments := by
  obtain ⟨segments, read, holds⟩ := (Option.any_eq_true _ _).mp tidy
  obtain ⟨all, ends⟩ := Bool.and_eq_true_iff.mp holds
  refine ⟨segments, read, exists_key_of_split? read, List.all_eq_true.mp all, ?_⟩
  intro name last
  rw [Option.mem_def.mp last, Option.all_some, decide_eq_true_eq] at ends
  rw [← ends]
  exact getLast?_trimEnd name.toList

/-! ## Clean paths -/

theorem isBlank_of_isClean {name : String} (clean : (Segment.key name).isClean) :
    ∀ c ∈ name.toList, isBlank c = false := by
  simp only [Segment.isClean, Bool.and_eq_true] at clean
  intro c member
  have := List.all_eq_true.mp clean.2 c member
  simp only [Segment.isCleanChar, Bool.and_eq_true] at this
  simpa using this.1.1.1

theorem isStepChar_of_isCleanChar {c : Char} (clean : Segment.isCleanChar c = true) :
    StepPath.isStepChar c = true := by
  simp only [Segment.isCleanChar, Bool.and_eq_true] at clean
  simp only [StepPath.isStepChar, Bool.and_eq_true]
  exact ⟨⟨clean.1.1.2, clean.1.2⟩, clean.2⟩

theorem isTidy_key_of_isClean {name : String} (clean : (Segment.key name).isClean) :
    (Segment.key name).isTidy := by
  simp only [Segment.isClean, Bool.and_eq_true] at clean
  refine Bool.and_eq_true_iff.mpr ⟨clean.1, List.all_eq_true.mpr fun c member => ?_⟩
  exact isStepChar_of_isCleanChar (List.all_eq_true.mp clean.2 c member)

/-- Clean steps are tidy. -/
theorem tidy_of_isClean {segments : List Segment}
    (starts : ∃ name rest, segments = .key name :: rest)
    (clean : ∀ segment ∈ segments, segment.isClean)
    (counts : ∀ position, .index position ∈ segments → position ≤ maxCount) : Tidy segments := by
  have all : ∀ segment ∈ segments, segment.isTidy := by
    intro segment member
    cases segment with
    | index position => exact decide_eq_true (counts position member)
    | key name => exact isTidy_key_of_isClean (clean _ member)
  obtain ⟨name, rest, rfl⟩ := starts
  refine ⟨⟨name, rest, rfl, fun c first => ?_⟩, all, fun other last c final => ?_⟩
  · exact isBlank_of_isClean (clean _ List.mem_cons_self) c (List.mem_of_mem_head? first)
  · obtain ⟨segment, member, named⟩ := List.mem_filterMap.mp (List.mem_of_mem_getLast? last)
    cases segment with
    | index => cases named
    | key =>
      cases named
      exact isBlank_of_isClean (clean _ member) c (List.mem_of_mem_getLast? final)

theorem isClean_of_split? {path : String} {segments : List Segment}
    (read : split? path = some segments) (clean : ∀ segment ∈ segments, segment.isClean) :
    isClean path :=
  (Option.any_eq_true _ _).mpr ⟨segments, read, List.all_eq_true.mpr clean⟩

theorem exists_clean_of_isClean {path : String} (clean : isClean path) :
    ∃ segments, split? path = some segments ∧ (∀ segment ∈ segments, segment.isClean) ∧
      Tidy segments := by
  obtain ⟨segments, read, all⟩ := (Option.any_eq_true _ _).mp clean
  have clean := List.all_eq_true.mp all
  obtain ⟨name, rest, whole, -⟩ := exists_key_of_split? read
  refine ⟨segments, read, clean, tidy_of_isClean ⟨name, rest, whole⟩ clean ?_⟩
  intro position member
  exact fits_of_parts? (split?_eq_some.mp read).2 _ member

/-! ## The forms of a path -/

theorem keys?_of_split? {path : String} {segments : List Segment}
    (read : split? path = some segments) :
    keys? path = some (segments.filterMap Segment.key?) := by
  obtain ⟨name, rest, rfl, -⟩ := exists_key_of_split? read
  rw [keys?, read]
  rfl

theorem toList_intercalate_cons (name : String) (names : List String) :
    (".".intercalate (name :: names)).toList =
      name.toList ++ joinFrom true (names.map Segment.key) := by
  induction names generalizing name with
  | nil => simp [joinFrom]
  | cons next names ih =>
    rw [String.intercalate_cons_cons, String.toList_append, String.toList_append, ih,
      List.map_cons, joinFrom_true_key]
    simp

theorem normalize_of_split? {path : String} {segments : List Segment}
    (read : split? path = some segments) : normalize path = join segments := by
  rw [normalize, read]

theorem stripIndices_of_split? {path : String} {segments : List Segment}
    (read : split? path = some segments) :
    stripIndices path = join (propertySegments segments) := by
  rw [stripIndices, read]

theorem filterMap_key?_propertySegments (segments : List Segment) :
    (propertySegments segments).filterMap Segment.key? = segments.filterMap Segment.key? := by
  rw [propertySegments, List.filterMap_filter]
  congr 1
  funext segment
  cases segment <;> rfl

theorem Tidy.propertySegments {segments : List Segment} (tidy : Tidy segments) :
    Tidy (propertySegments segments) := by
  obtain ⟨name, rest, rfl, dark⟩ := tidy.starts
  refine ⟨⟨name, Path.propertySegments rest, rfl, dark⟩, fun segment member => ?_, ?_⟩
  · exact tidy.all segment (List.mem_of_mem_filter member)
  · rw [filterMap_key?_propertySegments]
    exact tidy.ends

/-- A path and its form without positions have the same keys. -/
theorem keys?_stripIndices {path : String} {segments : List Segment}
    (read : split? path = some segments) (tidy : Tidy segments) :
    keys? (stripIndices path) = keys? path := by
  rw [stripIndices_of_split? read, keys?_of_split? (split?_join tidy.propertySegments),
    keys?_of_split? read, filterMap_key?_propertySegments]

/-- A clean path and its usual form have the same keys. -/
theorem keys?_normalize {path : String} (clean : isClean path) :
    keys? (normalize path) = keys? path := by
  obtain ⟨segments, read, -, tidy⟩ := exists_clean_of_isClean clean
  rw [normalize_of_split? read, keys?_of_split? (split?_join tidy), keys?_of_split? read]

end Path

end MessageTemplate
