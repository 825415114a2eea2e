import MessageTemplate.Proofs.Path.Read
import Mathlib.Data.List.TakeWhile

/-! # Paths that lead on

A path leads on from another one if the text of that one and a dot, or an opening bracket, stand at
its start. A path without positions that is read at all holds no bracket; so what leads on in it
are properties. -/

namespace MessageTemplate

open Text

/-- Whether a step is a position. -/
def Segment.isPosition (segment : Segment) : Bool :=
  segment.key?.isNone

namespace Path

theorem isStrictPrefix_iff {start path : String} :
    isStrictPrefix start path ↔ ∃ rest, path.toList = start.toList ++ '.' :: rest ∨
      path.toList = start.toList ++ '[' :: rest := by
  unfold isStrictPrefix
  constructor
  · intro leads
    split at leads
    · next rest cut => exact ⟨rest, .inl (isPrefixOf?_eq_some cut)⟩
    · next rest cut => exact ⟨rest, .inr (isPrefixOf?_eq_some cut)⟩
    · exact absurd leads Bool.false_ne_true
  · rintro ⟨rest, dotted | opened⟩
    · rw [dotted, isPrefixOf?_append]
      rfl
    · rw [opened, isPrefixOf?_append]
      rfl

theorem isStrictPrefix_trans {first second third : String} (left : isStrictPrefix first second)
    (right : isStrictPrefix second third) : isStrictPrefix first third := by
  obtain ⟨inner, left⟩ := isStrictPrefix_iff.mp left
  obtain ⟨rest, right⟩ := isStrictPrefix_iff.mp right
  rw [isStrictPrefix_iff]
  rcases left with left | left
  · refine ⟨inner ++ third.toList.drop second.toList.length, .inl ?_⟩
    rcases right with right | right
    · simp [right, left]
    · simp [right, left]
  · refine ⟨inner ++ third.toList.drop second.toList.length, .inr ?_⟩
    rcases right with right | right
    · simp [right, left]
    · simp [right, left]

theorem length_lt_of_isStrictPrefix {start path : String} (leads : isStrictPrefix start path) :
    start.toList.length < path.toList.length := by
  obtain ⟨rest, whole | whole⟩ := isStrictPrefix_iff.mp leads
  · rw [whole, List.length_append, List.length_cons]
    omega
  · rw [whole, List.length_append, List.length_cons]
    omega

/-- What leads on through a property is read as the steps before and others. -/
theorem split?_prefix_of_dot {start path : String} {first whole : List Segment} {rest : List Char}
    (tight : Tight start.toList) (read : split? start = some first)
    (further : split? path = some whole) (dotted : path.toList = start.toList ++ '.' :: rest) :
    first <+: whole := by
  obtain ⟨-, read⟩ := split?_eq_some.mp read
  obtain ⟨-, further⟩ := split?_eq_some.mp further
  rw [dotted, trim_append_cons tight.1 (by decide)] at further
  obtain ⟨before, others, same, -, rfl⟩ := parts?_append_dot_eq_some.mp further
  rw [trim_eq_self tight] at read
  cases read.symm.trans same
  exact List.prefix_append first others

/-! ## Brackets -/

theorem mem_close_of_brackets? {text : List Char} {segments : List Segment}
    (read : brackets? text = some segments) (full : text ≠ []) : ']' ∈ text := by
  unfold brackets? at read
  split at read
  · exact absurd rfl full
  · split at read
    · split at read
      · cases read
      · next inner after cut =>
        rw [(breakAt_eq_some cut).1]
        simp
    · cases read

theorem mem_close_of_part? {text : List Char} {segments : List Segment}
    (read : part? text = some segments) (opened : '[' ∈ text) : ']' ∈ text := by
  obtain ⟨name, brackets, others, rfl, unopened, -, behind, -⟩ := part?_eq_some read
  have inside := (List.mem_append.mp opened).resolve_left unopened
  exact List.mem_append_right _ (mem_close_of_brackets? behind (List.ne_nil_of_mem inside))

/-- A bracket that is read is closed. -/
theorem mem_close_of_parts? {text : List Char} {segments : List Segment}
    (read : parts? text = some segments) (opened : '[' ∈ text) : ']' ∈ text := by
  induction text using dotted_induction generalizing segments with
  | single text plain =>
    rw [parts?_of_not_mem plain] at read
    exact mem_close_of_part? read opened
  | more left right plain ih =>
    obtain ⟨first, others, before, behind, -⟩ := parts?_append_dot_eq_some.mp read
    rw [parts?_of_not_mem plain] at before
    rcases List.mem_append.mp opened with inside | later
    · exact List.mem_append_left _ (mem_close_of_part? before inside)
    · rcases List.mem_cons.mp later with dot | later
      · cases dot
      · exact List.mem_append_right _ (List.mem_cons_of_mem _ (ih behind later))

/-- A closing bracket is written for each position, and none for names that may be read. -/
theorem count_close_joinFrom {segments : List Segment} (fits : ∀ segment ∈ segments, segment.Fits)
    (started : Bool) :
    (joinFrom started segments).count ']' = segments.countP Segment.isPosition := by
  induction segments generalizing started with
  | nil => rfl
  | cons segment segments ih =>
    have here := fits segment List.mem_cons_self
    have others := ih fun other member => fits other (List.mem_cons_of_mem _ member)
    cases segment with
    | index position =>
      have digits := List.count_eq_zero.mpr (not_mem_toDigits (c := ']') rfl position)
      simp [joinFrom, List.countP_cons, Segment.isPosition, Segment.key?, digits, others]
    | key name =>
      have plain := List.count_eq_zero.mpr here.2
      cases started with
      | false => simp [joinFrom, Segment.isPosition, Segment.key?, plain, others]
      | true => simp [joinFrom, Segment.isPosition, Segment.key?, plain, others]

/-- Names that have been read are written without closing brackets. -/
theorem not_mem_joinFrom {segments : List Segment} (fits : ∀ segment ∈ segments, segment.Fits)
    (started : Bool) : ']' ∉ joinFrom started (propertySegments segments) := by
  have named : ∀ segment ∈ propertySegments segments, segment.Fits := fun segment member =>
    fits segment (List.mem_of_mem_filter member)
  rw [← List.count_eq_zero, count_close_joinFrom named, List.countP_eq_zero]
  intro segment member
  have property := List.of_mem_filter member
  rw [Segment.isPosition, Option.isNone_iff_eq_none, ← Option.not_isSome_iff_eq_none]
  exact not_not_intro property

theorem unclosed_stripIndices {path : String} {segments : List Segment}
    (read : split? (stripIndices path) = some segments) : ']' ∉ (stripIndices path).toList := by
  cases whole : split? path with
  | none =>
    rw [stripIndices, whole, split?, Text.trimmed, String.toList_ofList, trim_trim] at read
    rw [split?] at whole
    cases whole.symm.trans read
  | some steps =>
    rw [stripIndices_of_split? whole, join, String.toList_ofList]
    exact not_mem_joinFrom (fits_of_parts? (split?_eq_some.mp whole).2) false

/-- A path without its positions holds no bracket, if it is read at all. -/
theorem not_mem_stripIndices {path : String} {segments : List Segment}
    (read : split? (stripIndices path) = some segments) : '[' ∉ (stripIndices path).toList := by
  intro opened
  obtain ⟨-, parts⟩ := split?_eq_some.mp read
  have closed := mem_close_of_parts? parts (mem_trim opened (by decide))
  exact unclosed_stripIndices read (mem_of_mem_trim closed)

/-- What leads on from a tidy path without positions, and is read, is read as its properties and
others. -/
theorem split?_prefix_of_isStrictPrefix {start path : String} {first whole : List Segment}
    (tight : Tight start.toList) (read : split? start = some first)
    (further : split? (stripIndices path) = some whole)
    (leads : isStrictPrefix start (stripIndices path)) : first <+: whole := by
  obtain ⟨rest, dotted | opened⟩ := isStrictPrefix_iff.mp leads
  · exact split?_prefix_of_dot tight read further dotted
  · refine absurd ?_ (not_mem_stripIndices further)
    rw [opened]
    simp

/-- Whether a text leads on from a path, positions left out, but is no path itself. -/
def blocks (other path : String) : Bool :=
  isStrictPrefix (stripIndices path) (stripIndices other) && (split? (stripIndices other)).isNone

end Path

end MessageTemplate
