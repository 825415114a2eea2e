import MessageTemplate.Proofs.Path.Keys

/-! # Paths told by their steps

The operations on paths work on the text: one looks for a text at the start of another one and at
the mark behind it, one counts dots. For plain steps they say what the steps say: a path leads on
from another one exactly if its steps begin with those of that one and go on
(`isStrictPrefix_join_iff`), so that `payload.item` is no start of `payload.items`, and
`payload.items[1]` is none of `payload.items[12]`. -/

namespace MessageTemplate.Path

open StepPath

/-- Steps of which the first one is a property, all names can be written as they are, and all
positions are counts. -/
structure Plain (segments : List Segment) : Prop where
  starts : ∃ name rest, segments = .key name :: rest
  clean : ∀ segment ∈ segments, segment.isClean
  counts : ∀ position, .index position ∈ segments → position ≤ Text.maxCount

namespace Plain

variable {segments : List Segment} (plain : Plain segments)

include plain

theorem tidy : Tidy segments :=
  tidy_of_isClean plain.starts plain.clean plain.counts

/-- The first steps of a path are those of a path. -/
theorem of_prefix {start : List Segment} (begins : start <+: segments) (full : start ≠ []) :
    Plain start := by
  obtain ⟨name, rest, rfl⟩ := plain.starts
  obtain ⟨segment, others, rfl⟩ := List.exists_cons_of_ne_nil full
  obtain ⟨rfl, -⟩ := List.cons_prefix_cons.mp begins
  exact ⟨⟨name, others, rfl⟩, fun segment member => plain.clean segment (begins.subset member),
    fun position member => plain.counts position (begins.subset member)⟩

theorem join_ne_empty : join segments ≠ "" := by
  obtain ⟨name, rest, rfl⟩ := plain.starts
  have here := plain.tidy.all _ List.mem_cons_self
  intro empty
  have written : (join (.key name :: rest)).toList = _ := toList_join here
  rw [empty] at written
  exact toList_ne_nil_of_isTidy here (List.append_eq_nil_iff.mp written.symm).1

end Plain

/-! ## Leading on -/

theorem toDigits_injective {position other : Nat}
    (same : Nat.toDigits 10 position = Nat.toDigits 10 other) : position = other := by
  have read := Text.digits?_toDigits position
  rwa [same, Text.digits?_toDigits, Option.some.injEq, eq_comm] at read

theorem stops_joinFrom_append {segments : List Segment} {tail : List Char}
    (stops : ∀ c ∈ tail.head?, isStepChar c = false) :
    ∀ c ∈ (joinFrom true segments ++ tail).head?, isStepChar c = false := by
  intro c first
  rw [List.head?_append, Option.mem_def, Option.or_eq_some_iff] at first
  rcases first with here | ⟨-, behind⟩
  · exact isStepChar_head?_joinFrom segments c here
  · exact stops c behind

/-- If the text of some steps starts with that of others and no name goes on behind it, then the
steps start with these. -/
theorem prefix_of_joinFrom {first whole : List Segment} {tail : List Char}
    (tidyFirst : ∀ segment ∈ first, segment.isTidy) (tidy : ∀ segment ∈ whole, segment.isTidy)
    (stops : ∀ c ∈ tail.head?, isStepChar c = false)
    (written : joinFrom true whole = joinFrom true first ++ tail) : first <+: whole := by
  induction first generalizing whole with
  | nil => exact List.nil_prefix
  | cons segment first ih =>
    obtain ⟨here, later⟩ := List.forall_mem_cons.mp tidyFirst
    cases segment with
    | key name =>
      rw [joinFrom_true_key, List.cons_append, List.append_assoc] at written
      obtain ⟨other, others, rfl, named⟩ := joinFrom_eq_dot written
      obtain ⟨otherTidy, othersTidy⟩ := List.forall_mem_cons.mp tidy
      obtain ⟨rfl, behind⟩ := eq_of_toList_append otherTidy (isStepChar_of_isTidy here)
        (stops_joinFrom_append stops) named.symm
      exact List.cons_prefix_cons.mpr ⟨rfl, ih later othersTidy behind⟩
    | index position =>
      rw [joinFrom_true_index, List.cons_append, List.append_assoc, List.cons_append] at written
      obtain ⟨other, others, rfl, numbered⟩ := joinFrom_eq_bracket written
      have cut := Text.breakAt_append_cons (not_mem_toDigits (c := ']') rfl other)
        (joinFrom true others)
      rw [← numbered, Text.breakAt_append_cons (not_mem_toDigits rfl position)] at cut
      obtain ⟨digits, behind⟩ := Prod.mk.inj (Option.some.inj cut)
      obtain rfl := toDigits_injective digits
      have othersTidy := (List.forall_mem_cons.mp tidy).2
      exact List.cons_prefix_cons.mpr ⟨rfl, ih later othersTidy behind.symm⟩

/-- A path leads on from another one exactly if its steps begin with those of that one and go
on. -/
theorem isStrictPrefix_join_iff {first second : List Segment} (legible : Legible first)
    (further : Legible second) :
    isStrictPrefix (join first) (join second) ↔ first <+: second ∧ first ≠ second := by
  constructor
  · intro leads
    refine ⟨?_, ?_⟩
    · obtain ⟨name, rest, rfl, -⟩ := legible.starts
      obtain ⟨other, others, rfl, -⟩ := further.starts
      obtain ⟨here, later⟩ := List.forall_mem_cons.mp legible.all
      obtain ⟨otherHere, otherLater⟩ := List.forall_mem_cons.mp further.all
      obtain ⟨tail, stops, whole⟩ : ∃ tail, (∀ c ∈ tail.head?, isStepChar c = false) ∧
          (join (.key other :: others)).toList = (join (.key name :: rest)).toList ++ tail := by
        obtain ⟨tail, dotted | opened⟩ := isStrictPrefix_iff.mp leads
        · exact ⟨'.' :: tail, by simp [isStepChar], dotted⟩
        · exact ⟨'[' :: tail, by simp [isStepChar], opened⟩
      rw [toList_join here, toList_join otherHere, List.append_assoc] at whole
      obtain ⟨rfl, behind⟩ := eq_of_toList_append otherHere (isStepChar_of_isTidy here)
        (stops_joinFrom_append stops) whole
      exact List.cons_prefix_cons.mpr
        ⟨rfl, prefix_of_joinFrom later otherLater stops behind⟩
    · rintro rfl
      exact Nat.lt_irrefl _ (length_lt_of_isStrictPrefix leads)
  · rintro ⟨⟨more, rfl⟩, differs⟩
    rw [isStrictPrefix_iff, legible.toList_join_append]
    cases more with
    | nil => exact absurd (List.append_nil first).symm differs
    | cons segment more =>
      cases segment with
      | key name => exact ⟨_, .inl (by rw [joinFrom_true_key])⟩
      | index position => exact ⟨_, .inr (by rw [joinFrom_true_index])⟩

/-- Without its positions, a path is written with its names. -/
theorem stripIndices_join {segments : List Segment} (tidy : Tidy segments) :
    stripIndices (join segments) = join ((segments.filterMap Segment.key?).map .key) := by
  rw [stripIndices_of_split? (split?_join tidy), map_key_filterMap_key?]

/-- Steps are told by their path. -/
theorem join_injective {first second : List Segment} (legible : Legible first)
    (further : Legible second) (same : join first = join second) : first = second := by
  have read := legible.split?_join
  rw [same, further.split?_join, Option.some.injEq] at read
  exact read.symm

end MessageTemplate.Path
