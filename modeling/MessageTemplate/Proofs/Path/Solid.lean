import MessageTemplate.Proofs.Path.Keys

/-! # Paths without blanks

The names that are read from a path hold only what the path holds, so a path without blanks has
names without blanks, and so have its usual form and its form without positions. If it holds no
closing bracket either, then it is its names with dots between them (`eq_ofKeys_of_isSolid`). -/

namespace MessageTemplate

open Text

namespace Path

/-- Whether a path holds no blank. -/
def isSolid (path : String) : Bool :=
  path.toList.all fun c => !isBlank c

theorem isSolid_iff {path : String} : isSolid path ↔ ∀ c ∈ path.toList, isBlank c = false := by
  simp [isSolid]

/-! ## What names hold -/

section Names

variable {text : List Char} {segments : List Segment}

theorem subset_of_ofBracket? {inner : List Char} {name : String}
    (read : Segment.ofBracket? inner = some (.key name)) : name.toList ⊆ inner := by
  unfold Segment.ofBracket? at read
  split at read
  · cases read
  · split at read
    · cases read
    · next quote rest _ =>
      split at read
      · cases read
        rw [String.toList_ofList]
        exact List.subset_cons_of_subset quote (List.dropLast_subset rest)
      · cases read
        rw [String.toList_ofList]
        exact List.Subset.refl _

theorem subset_of_brackets? (read : brackets? text = some segments) :
    ∀ name, .key name ∈ segments → name.toList ⊆ text := by
  fun_induction brackets? text generalizing segments with
  | case1 => cases read; simp
  | case2 => cases read
  | case3 rest inner after cut ih =>
    obtain ⟨whole, -⟩ := breakAt_eq_some cut
    obtain ⟨first, inside, read⟩ := Option.bind_eq_some_iff.mp read
    obtain ⟨others, behind, read⟩ := Option.bind_eq_some_iff.mp read
    cases read
    intro name member c present
    refine List.mem_cons_of_mem _ (whole ▸ ?_)
    rcases List.mem_cons.mp member with rfl | later
    · exact List.mem_append_left _ (mem_of_mem_trim (subset_of_ofBracket? inside present))
    · exact List.mem_append_right _ (List.mem_cons_of_mem _ (ih behind name later present))
  | case4 => cases read

theorem subset_of_part? (read : part? text = some segments) :
    ∀ name, .key name ∈ segments → name.toList ⊆ text := by
  obtain ⟨first, brackets, others, rfl, -, -, behind, ⟨-, -, rfl⟩ | ⟨-, rfl⟩⟩ := part?_eq_some read
  · intro name member
    exact List.subset_append_of_subset_right _ (subset_of_brackets? behind name member)
  · intro name member
    rcases List.mem_cons.mp member with here | later
    · cases here
      rw [String.toList_ofList]
      exact List.subset_append_left _ _
    · exact List.subset_append_of_subset_right _ (subset_of_brackets? behind name later)

theorem subset_of_parts? (read : parts? text = some segments) :
    ∀ name, .key name ∈ segments → name.toList ⊆ text := by
  induction text using dotted_induction generalizing segments with
  | single text plain =>
    rw [parts?_of_not_mem plain] at read
    exact subset_of_part? read
  | more left right plain ih =>
    obtain ⟨first, others, before, behind, rfl⟩ := parts?_append_dot_eq_some.mp read
    rw [parts?_of_not_mem plain] at before
    intro name member
    rcases List.mem_append.mp member with inside | later
    · exact List.subset_append_of_subset_left _ (subset_of_part? before name inside)
    · have within := List.subset_cons_of_subset '.' (ih behind name later)
      exact List.subset_append_of_subset_right _ within

theorem subset_of_split? {path : String} (read : split? path = some segments) :
    ∀ name, .key name ∈ segments → name.toList ⊆ path.toList := fun name member _ present =>
  mem_of_mem_trim (subset_of_parts? (split?_eq_some.mp read).2 name member present)

end Names

/-! ## Forms of paths without blanks -/

section Solid

variable {path : String} {segments : List Segment}

theorem isBlank_of_mem_joinFrom
    (solid : ∀ name, .key name ∈ segments → ∀ c ∈ name.toList, isBlank c = false)
    (started : Bool) : ∀ c ∈ joinFrom started segments, isBlank c = false := by
  induction segments generalizing started with
  | nil => exact List.forall_mem_nil _
  | cons segment segments ih =>
    have later := ih fun name member => solid name (List.mem_cons_of_mem _ member)
    cases segment with
    | key name =>
      have here := solid name List.mem_cons_self
      rw [joinFrom, List.forall_mem_append]
      refine ⟨?_, later _⟩
      split
      · exact List.forall_mem_cons.mpr ⟨by decide, here⟩
      · exact here
    | index position =>
      rw [joinFrom, List.forall_mem_append, List.forall_mem_cons, List.forall_mem_cons]
      refine ⟨⟨by decide, fun c digit => ?_⟩, by decide, later true⟩
      exact isBlank_of_isDigit (Nat.isDigit_of_mem_toDigits (by decide) (by decide) digit)

theorem isSolid_join
    (solid : ∀ name, .key name ∈ segments → ∀ c ∈ name.toList, isBlank c = false) :
    isSolid (join segments) := by
  rw [isSolid_iff, join, String.toList_ofList]
  exact isBlank_of_mem_joinFrom solid false

theorem isSolid_trimmed (solid : isSolid path) : isSolid (trimmed path) := by
  rw [isSolid_iff] at solid ⊢
  rw [trimmed, String.toList_ofList]
  exact fun c member => solid c (mem_of_mem_trim member)

theorem isBlank_of_split? (solid : isSolid path) (read : split? path = some segments) :
    ∀ name, .key name ∈ segments → ∀ c ∈ name.toList, isBlank c = false :=
  fun name member c present => isSolid_iff.mp solid c (subset_of_split? read name member present)

theorem isSolid_normalize (solid : isSolid path) : isSolid (normalize path) := by
  rw [normalize]
  split
  · next segments read => exact isSolid_join (isBlank_of_split? solid read)
  · exact isSolid_trimmed solid

theorem isSolid_stripIndices (solid : isSolid path) : isSolid (stripIndices path) := by
  rw [stripIndices]
  split
  · next segments read =>
    refine isSolid_join fun name member => isBlank_of_split? solid read name ?_
    exact List.mem_of_mem_filter member
  · exact isSolid_trimmed solid

theorem trim_of_isSolid (solid : isSolid path) : trim path.toList = path.toList := by
  have dark := isSolid_iff.mp solid
  exact trim_eq_self ⟨fun c first => dark c (List.mem_of_mem_head? first),
    fun c last => dark c (List.mem_of_mem_getLast? last)⟩

end Solid

/-! ## Names with dots between them -/

theorem forall_mem_intercalate {good : Char → Prop} {names : List String} (dot : good '.')
    (each : ∀ name ∈ names, ∀ c ∈ name.toList, good c) :
    ∀ c ∈ (".".intercalate names).toList, good c := by
  induction names with
  | nil => simp
  | cons name names ih =>
    obtain ⟨here, later⟩ := List.forall_mem_cons.mp each
    cases names with
    | nil => simpa using here
    | cons next names =>
      rw [String.intercalate_cons_cons, String.toList_append, String.toList_append,
        List.forall_mem_append, List.forall_mem_append]
      exact ⟨⟨here, List.forall_mem_singleton.mpr dot⟩, ih later⟩

/-- Between two dots, a text without closing brackets is a name. -/
theorem eq_key_of_part? {text : List Char} {segments : List Segment} (dotless : '.' ∉ text)
    (unclosed : ']' ∉ text) (read : part? text = some segments) :
    segments = [.key (String.ofList text)] ∧ (Segment.key (String.ofList text)).isTidy := by
  obtain ⟨name, brackets, others, rfl, unopened, -, behind, shape⟩ := part?_eq_some read
  obtain rfl : brackets = [] := by
    by_contra full
    exact unclosed (List.mem_append_right _ (mem_close_of_brackets? behind full))
  obtain ⟨-, full, -⟩ | ⟨full, rfl⟩ := shape
  · exact absurd rfl full
  · rw [brackets?, Option.some.injEq] at behind
    subst behind
    rw [List.append_nil] at dotless unclosed ⊢
    refine ⟨rfl, Bool.and_eq_true_iff.mpr ⟨?_, List.all_eq_true.mpr fun c member => ?_⟩⟩
    · rw [decide_eq_true_eq, ne_eq, ← String.toList_eq_nil_iff, String.toList_ofList]
      exact full
    · rw [String.toList_ofList] at member
      simp only [StepPath.isStepChar, Bool.and_eq_true, decide_eq_true_eq]
      exact ⟨⟨fun dot => dotless (dot ▸ member), fun opened => unopened (opened ▸ member)⟩,
        fun closed => unclosed (closed ▸ member)⟩

/-- A text without closing brackets that is read is names with dots between them. -/
theorem exists_names_of_parts? {text : List Char} {segments : List Segment}
    (unclosed : ']' ∉ text) (read : parts? text = some segments) :
    ∃ names, segments = names.map .key ∧ names ≠ [] ∧ text = (".".intercalate names).toList ∧
      ∀ name ∈ names, (Segment.key name).isTidy := by
  induction text using dotted_induction generalizing segments with
  | single text plain =>
    rw [parts?_of_not_mem plain] at read
    obtain ⟨rfl, tidy⟩ := eq_key_of_part? plain unclosed read
    exact ⟨[String.ofList text], rfl, List.cons_ne_nil _ _, by simp, by simpa using tidy⟩
  | more left right plain ih =>
    obtain ⟨first, others, before, behind, rfl⟩ := parts?_append_dot_eq_some.mp read
    rw [parts?_of_not_mem plain] at before
    rw [List.mem_append, List.mem_cons, not_or, not_or] at unclosed
    obtain ⟨rfl, tidy⟩ := eq_key_of_part? plain unclosed.1 before
    obtain ⟨names, rfl, full, whole, all⟩ := ih unclosed.2.2 behind
    obtain ⟨name, names, rfl⟩ := List.exists_cons_of_ne_nil full
    refine ⟨String.ofList left :: name :: names, rfl, List.cons_ne_nil _ _, ?_,
      List.forall_mem_cons.mpr ⟨tidy, all⟩⟩
    rw [String.intercalate_cons_cons, String.toList_append, String.toList_append, ← whole]
    simp

/-- A path without blanks and without closing brackets is told by its names. -/
theorem eq_ofKeys_of_isSolid {path : String} {keys : List String} (solid : isSolid path)
    (unclosed : ']' ∉ path.toList) (read : keys? path = some keys) :
    keys ≠ [] ∧ (∀ key ∈ keys, (Segment.key key).isClean) ∧ path = ofKeys keys := by
  cases steps : split? path with
  | none =>
    rw [keys?, steps] at read
    cases read
  | some segments =>
    rw [keys?_of_split? steps, Option.some.injEq] at read
    obtain ⟨-, parts⟩ := split?_eq_some.mp steps
    rw [trim_of_isSolid solid] at parts
    obtain ⟨names, rfl, full, whole, tidy⟩ := exists_names_of_parts? unclosed parts
    have named : Segment.key? ∘ Segment.key = some := rfl
    rw [List.filterMap_map, named, List.filterMap_some] at read
    subst read
    have clean : ∀ name ∈ names, (Segment.key name).isClean := by
      intro name member
      have dark := isBlank_of_split? solid steps name (List.mem_map_of_mem member)
      obtain ⟨nonempty, plain⟩ := Bool.and_eq_true_iff.mp (tidy name member)
      refine Bool.and_eq_true_iff.mpr ⟨nonempty, List.all_eq_true.mpr fun c present => ?_⟩
      have step := List.all_eq_true.mp plain c present
      simp only [StepPath.isStepChar, Bool.and_eq_true] at step
      simp [Segment.isCleanChar, dark c present, step]
    refine ⟨full, clean, ?_⟩
    rw [← intercalate_eq_ofKeys full clean, ← String.toList_inj, whole]

end Path

end MessageTemplate
