import MessageTemplate.Proofs.Path.Prefix

/-! # Which steps are read back

Steps are read back from the path that they are written as exactly if they are legible
(`split?_join_iff`). Names that are read hold neither dots nor closing brackets, so the path holds one
closing bracket for each position. Each bracket that is read takes one of them: where as many positions
are read, every name stands outside of brackets, is not empty and holds no opening bracket.

So the usual form of a path is read as the path itself exactly if its names can stand there
(`split?_normalize_iff`). -/

namespace MessageTemplate

open Text

namespace Path

/-! ## Counting brackets -/

/-- Each bracket that is read is closed once. -/
theorem count_close_of_brackets? {text : List Char} {segments : List Segment}
    (read : brackets? text = some segments) : text.count ']' = segments.length := by
  fun_induction brackets? text generalizing segments with
  | case1 => cases read; rfl
  | case2 => cases read
  | case3 rest inner after cut ih =>
    obtain ⟨whole, unclosed⟩ := breakAt_eq_some cut
    obtain ⟨first, -, read⟩ := Option.bind_eq_some_iff.mp read
    obtain ⟨others, behind, read⟩ := Option.bind_eq_some_iff.mp read
    cases read
    rw [whole, List.count_cons_of_ne (by decide), List.count_append, List.count_cons_self,
      List.count_eq_zero.mpr unclosed, ih behind, List.length_cons, Nat.zero_add]
  | case4 => cases read

theorem eq_nil_of_brackets? {text : List Char} (read : brackets? text = some []) : text = [] := by
  by_contra full
  have := List.count_pos_iff.mpr (mem_close_of_brackets? read full)
  rw [count_close_of_brackets? read] at this
  exact Nat.lt_irrefl _ this

theorem ne_nil_of_part? {text : List Char} {segments : List Segment}
    (read : part? text = some segments) : segments ≠ [] := by
  rintro rfl
  obtain ⟨name, brackets, others, -, -, -, behind, ⟨-, full, rfl⟩ | ⟨-, empty⟩⟩ := part?_eq_some read
  · exact full (eq_nil_of_brackets? behind)
  · cases empty

theorem ne_nil_of_parts? {text : List Char} {segments : List Segment}
    (read : parts? text = some segments) : segments ≠ [] := by
  induction text using dotted_induction generalizing segments with
  | single text plain =>
    rw [parts?_of_not_mem plain] at read
    exact ne_nil_of_part? read
  | more left right plain ih =>
    obtain ⟨first, others, -, behind, rfl⟩ := parts?_append_dot_eq_some.mp read
    exact List.append_ne_nil_of_right_ne_nil first (ih behind)

/-! ## Names outside of brackets -/

/-- The names among some steps stand outside of brackets in a text: none is empty or holds an opening
bracket, and a name that comes last stands at the end of the text. -/
structure Outside (text : List Char) (segments : List Segment) : Prop where
  keys : ∀ name, .key name ∈ segments → name ≠ "" ∧ '[' ∉ name.toList
  ends : ∀ name, segments.getLast? = some (.key name) → name.toList.getLast? = text.getLast?

/-- There are no more positions than closing brackets, and if there are as many, then all names stand
outside of brackets. -/
def Balances (text : List Char) (segments : List Segment) : Prop :=
  segments.countP Segment.isPosition ≤ text.count ']' ∧
    (segments.countP Segment.isPosition = text.count ']' → Outside text segments)

theorem balances_of_part? {text : List Char} {segments : List Segment}
    (read : part? text = some segments) : Balances text segments := by
  obtain ⟨name, brackets, others, rfl, unopened, unclosed, behind, shape⟩ := part?_eq_some read
  have closed : (name ++ brackets).count ']' = others.length := by
    rw [List.count_append, List.count_eq_zero.mpr unclosed, count_close_of_brackets? behind,
      Nat.zero_add]
  -- as many positions as brackets: each bracket holds one
  have inside : others.countP Segment.isPosition = others.length →
      ∀ segment ∈ others, segment.isPosition := List.countP_eq_length.mp
  rw [Balances, closed]
  obtain ⟨-, -, rfl⟩ | ⟨full, rfl⟩ := shape
  · refine ⟨List.countP_le_length, fun all => ⟨fun other member => ?_, fun other last => ?_⟩⟩
    · cases inside all _ member
    · cases inside all _ (List.mem_of_getLast? last)
  · have named : (Segment.key (String.ofList name)).isPosition = false := rfl
    rw [List.countP_cons_of_neg (by rw [named]; exact Bool.false_ne_true)]
    refine ⟨List.countP_le_length, fun all => ⟨fun other member => ?_, fun other last => ?_⟩⟩
    · rcases List.mem_cons.mp member with same | later
      · cases same
        rw [ne_eq, ← String.toList_eq_nil_iff, String.toList_ofList]
        exact ⟨full, unopened⟩
      · cases inside all _ later
    · cases others with
      | nil =>
        cases last
        rw [String.toList_ofList, eq_nil_of_brackets? behind, List.append_nil]
      | cons first others =>
        rw [List.getLast?_cons_cons] at last
        cases inside all _ (List.mem_of_getLast? last)

theorem balances_of_parts? {text : List Char} {segments : List Segment}
    (read : parts? text = some segments) : Balances text segments := by
  induction text using dotted_induction generalizing segments with
  | single text plain =>
    rw [parts?_of_not_mem plain] at read
    exact balances_of_part? read
  | more left right plain ih =>
    obtain ⟨first, others, before, behind, rfl⟩ := parts?_append_dot_eq_some.mp read
    rw [parts?_of_not_mem plain] at before
    obtain ⟨firstLe, firstOutside⟩ := balances_of_part? before
    obtain ⟨othersLe, othersOutside⟩ := ih behind
    have closed : (left ++ '.' :: right).count ']' = left.count ']' + right.count ']' := by
      rw [List.count_append, List.count_cons_of_ne (by decide)]
    rw [Balances, List.countP_append, closed]
    refine ⟨Nat.add_le_add firstLe othersLe, fun all => ⟨fun name member => ?_, fun name last => ?_⟩⟩
    · rcases List.mem_append.mp member with here | later
      · exact (firstOutside (by omega)).keys name here
      · exact (othersOutside (by omega)).keys name later
    · have outside := othersOutside (by omega)
      rw [List.getLast?_append_of_ne_nil first (ne_nil_of_parts? behind)] at last
      have full : right ≠ [] := by
        rintro rfl
        have named := (outside.keys name (List.mem_of_getLast? last)).1
        exact named (String.toList_eq_nil_iff.mp (List.getLast?_eq_none_iff.mp (outside.ends name last)))
      rw [outside.ends name last, List.getLast?_append_of_ne_nil _ (List.cons_ne_nil '.' right),
        List.getLast?_cons_of_ne_nil full]

/-! ## Reading back -/

theorem isTidy_of_fits {segment : Segment} (fits : segment.Fits)
    (outside : ∀ name, segment = .key name → name ≠ "" ∧ '[' ∉ name.toList) : segment.isTidy := by
  cases segment with
  | index position => exact decide_eq_true fits
  | key name =>
    obtain ⟨full, unopened⟩ := outside name rfl
    refine Bool.and_eq_true_iff.mpr ⟨decide_eq_true full, List.all_eq_true.mpr fun c member => ?_⟩
    have differs {mark : Char} (absent : mark ∉ name.toList) : c ≠ mark :=
      fun same => absent (same ▸ member)
    simp [StepPath.isStepChar, differs fits.1, differs fits.2, differs unopened]

/-- Steps that are read back are legible. -/
theorem legible_of_split? {segments : List Segment} (read : split? (join segments) = some segments) :
    Legible segments := by
  obtain ⟨name, rest, whole, dark⟩ := exists_key_of_split? read
  obtain ⟨-, parts⟩ := split?_eq_some.mp read
  have fits := fits_of_parts? parts
  obtain ⟨atMost, outside⟩ := balances_of_parts? parts
  have written : (join segments).toList.count ']' = segments.countP Segment.isPosition := by
    rw [join, String.toList_ofList, count_close_joinFrom fits]
  have trimmed := (trim_sublist (join segments).toList).count_le ']'
  have outside := outside (Nat.le_antisymm atMost (trimmed.trans_eq written))
  refine ⟨⟨name, rest, whole, dark⟩, fun segment member => ?_, fun last final c ends => ?_⟩
  · exact isTidy_of_fits (fits segment member) fun other same => outside.keys other (same ▸ member)
  · rw [outside.ends last final] at ends
    exact (tight_trim (join segments).toList).2 c ends

/-- Steps are read back from the path that they are written as exactly if they are legible: the first
is a property, names are not empty and hold neither dots nor brackets, positions are counts, the first
name does not start with a blank, and no name that comes last ends with one. -/
theorem split?_join_iff (segments : List Segment) :
    split? (join segments) = some segments ↔ Legible segments :=
  ⟨legible_of_split?, Legible.split?_join⟩

/-! ## The usual form -/

/-- The steps of a path are legible if no name among them is empty, holds an opening bracket, or ends
with a blank and the path with it. -/
theorem legible_iff_of_split? {path : String} {segments : List Segment}
    (read : split? path = some segments) :
    Legible segments ↔
      (∀ name, .key name ∈ segments → name ≠ "" ∧ '[' ∉ name.toList) ∧
        ∀ name, segments.getLast? = some (.key name) →
          ∀ c ∈ name.toList.getLast?, isBlank c = false := by
  constructor
  · intro legible
    refine ⟨fun name member => ?_, legible.ends⟩
    have tidy := legible.all _ member
    refine ⟨fun empty => toList_ne_nil_of_isTidy tidy (by rw [empty]; rfl), fun opened => ?_⟩
    exact absurd (List.all_eq_true.mp (isStepChar_of_isTidy tidy) _ opened) (by decide)
  · rintro ⟨outside, ends⟩
    have fits := fits_of_parts? (split?_eq_some.mp read).2
    exact ⟨exists_key_of_split? read, fun segment member =>
      isTidy_of_fits (fits segment member) fun name same => outside name (same ▸ member), ends⟩

/-- The usual form of a path is read as the path itself exactly if none of its names is empty or holds
an opening bracket, and a name that comes last does not end with a blank. Then it is the usual form of
itself. -/
theorem split?_normalize_iff {path : String} {segments : List Segment}
    (read : split? path = some segments) :
    (split? (normalize path) = split? path ↔
      (∀ name, .key name ∈ segments → name ≠ "" ∧ '[' ∉ name.toList) ∧
        ∀ name, segments.getLast? = some (.key name) →
          ∀ c ∈ name.toList.getLast?, isBlank c = false) ∧
      (split? (normalize path) = split? path → normalize (normalize path) = normalize path) := by
  rw [normalize_of_split? read, read, ← legible_iff_of_split? read]
  refine ⟨⟨legible_of_split?, Legible.split?_join⟩, fun back => ?_⟩
  rw [normalize_of_split? back]

/-- A name with a blank inside can stand between dots. -/
theorem split?_normalize_firstName :
    split? "user['first name'].tags[0]" =
        some [.key "user", .key "first name", .key "tags", .index 0] ∧
      split? (normalize "user['first name'].tags[0]") = split? "user['first name'].tags[0]" ∧
      normalize (normalize "user['first name'].tags[0]") = normalize "user['first name'].tags[0]" := by
  have read : split? "user['first name'].tags[0]" =
      some [.key "user", .key "first name", .key "tags", .index 0] := by decide +kernel
  have same := (split?_normalize_iff read).1.mpr (by
    refine ⟨fun name member => ?_, nofun⟩
    simp only [List.mem_cons, Segment.key.injEq, List.not_mem_nil, or_false, reduceCtorEq] at member
    rcases member with rfl | rfl | rfl
    all_goals decide)
  exact ⟨read, same, (split?_normalize_iff read).2 same⟩

/-- Names that cannot stand between dots: one that is empty, one that holds an opening bracket, with or
without a position behind it, and one that ends with a blank. -/
theorem split?_normalize_ne :
    (split? "payload['']" = some [.key "payload", .key ""] ∧
        split? (normalize "payload['']") = none) ∧
      (split? "payload['b[']" = some [.key "payload", .key "b["] ∧
        split? (normalize "payload['b[']") = none) ∧
      (split? "payload['b['][0]" = some [.key "payload", .key "b[", .index 0] ∧
        split? (normalize "payload['b['][0]") = some [.key "payload", .key "b", .key "[0"]) ∧
      (split? "payload['b ']" = some [.key "payload", .key "b "] ∧
        split? (normalize "payload['b ']") = some [.key "payload", .key "b"]) ∧
      normalize (normalize "payload['b[ ']") ≠ normalize "payload['b[ ']" := by
  decide +kernel

end Path

end MessageTemplate
