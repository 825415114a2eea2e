import MessageTemplate.Proofs.Path.Prefix
import MessageTemplate.Proofs.Path.Steps

/-! # Paths of properties

A path that holds no positions is the names of its properties, with dots between them. Names that
can be written as they are are read back from it, and their number is its depth. -/

namespace MessageTemplate

open Text

namespace Path

/-- The path of a chain of names. -/
def ofKeys (keys : List String) : String := join (keys.map .key)

theorem map_key_filterMap_key? (segments : List Segment) :
    (segments.filterMap Segment.key?).map .key = propertySegments segments := by
  rw [propertySegments]
  induction segments with
  | nil => rfl
  | cons segment segments ih =>
    cases segment with
    | index position => exact ih
    | key name => exact congrArg (Segment.key name :: ·) ih

/-- A path without its positions is told by its names. -/
theorem stripIndices_of_keys? {path : String} {keys : List String}
    (read : keys? path = some keys) : stripIndices path = ofKeys keys := by
  cases steps : split? path with
  | none =>
    rw [keys?, steps] at read
    cases read
  | some segments =>
    rw [keys?_of_split? steps, Option.some.injEq] at read
    rw [stripIndices_of_split? steps, ofKeys, ← read, map_key_filterMap_key?]

section Clean

variable {keys others : List String} (full : keys ≠ [])
  (clean : ∀ key ∈ keys, (Segment.key key).isClean)

include full clean

theorem tidy_map_key : Tidy (keys.map .key) := by
  obtain ⟨key, rest, rfl⟩ := List.exists_cons_of_ne_nil full
  refine tidy_of_isClean ⟨key, rest.map .key, rfl⟩ (List.forall_mem_map.mpr clean) ?_
  intro position member
  obtain ⟨name, -, other⟩ := List.mem_map.mp member
  cases other

theorem split?_ofKeys : split? (ofKeys keys) = some (keys.map .key) :=
  split?_join (tidy_map_key full clean)

theorem keys?_ofKeys : keys? (ofKeys keys) = some keys := by
  have named : Segment.key? ∘ Segment.key = some := rfl
  rw [keys?_of_split? (split?_ofKeys full clean), List.filterMap_map, named, List.filterMap_some]

/-- Names with dots between them are their path. -/
theorem intercalate_eq_ofKeys : ".".intercalate keys = ofKeys keys := by
  obtain ⟨key, rest, rfl⟩ := List.exists_cons_of_ne_nil full
  rw [← String.toList_inj, toList_intercalate_cons, ofKeys, List.map_cons,
    toList_join (isTidy_key_of_isClean (clean key List.mem_cons_self))]

end Clean

theorem not_mem_dot_of_isTidy {name : String} (tidy : (Segment.key name).isTidy) :
    '.' ∉ name.toList := fun dot =>
  absurd (List.all_eq_true.mp (isStepChar_of_isTidy tidy) _ dot) (by decide)

theorem count_dot_joinFrom {segments : List Segment} (tidy : ∀ segment ∈ segments, segment.isTidy) :
    (joinFrom true segments).count '.' = (segments.filterMap Segment.key?).length := by
  induction segments with
  | nil => rfl
  | cons segment segments ih =>
    obtain ⟨here, later⟩ := List.forall_mem_cons.mp tidy
    cases segment with
    | key name =>
      rw [joinFrom_true_key, List.count_cons_self, List.count_append,
        List.count_eq_zero.mpr (not_mem_dot_of_isTidy here), ih later, Nat.zero_add]
      rfl
    | index position =>
      have digits := List.count_eq_zero.mpr (not_mem_toDigits (c := '.') rfl position)
      rw [joinFrom_true_index, List.count_cons_of_ne (by decide), List.count_append, digits,
        List.count_cons_of_ne (by decide), ih later, Nat.zero_add]
      rfl

/-- The depth of a path is the number of its names. -/
theorem depth_join {segments : List Segment} (legible : Legible segments) :
    depth (join segments) = (segments.filterMap Segment.key?).length := by
  obtain ⟨name, rest, rfl, -⟩ := legible.starts
  obtain ⟨here, later⟩ := List.forall_mem_cons.mp legible.all
  rw [depth, toList_join here, List.count_append,
    List.count_eq_zero.mpr (not_mem_dot_of_isTidy here), count_dot_joinFrom later, Nat.zero_add]
  rfl

theorem depth_ofKeys {keys : List String} (full : keys ≠ [])
    (clean : ∀ key ∈ keys, (Segment.key key).isClean) : depth (ofKeys keys) = keys.length := by
  have named : Segment.key? ∘ Segment.key = some := rfl
  rw [ofKeys, depth_join (tidy_map_key full clean).legible, List.filterMap_map, named,
    List.filterMap_some]

/-- A clean path has names, and they can be written as they are. -/
theorem clean_of_keys? {path : String} {keys : List String} (clean : isClean path)
    (read : keys? path = some keys) :
    keys ≠ [] ∧ ∀ key ∈ keys, (Segment.key key).isClean := by
  obtain ⟨segments, steps, all, -⟩ := exists_clean_of_isClean clean
  obtain ⟨name, rest, rfl, -⟩ := exists_key_of_split? steps
  rw [keys?_of_split? steps, Option.some.injEq] at read
  subst read
  refine ⟨List.cons_ne_nil _ _, fun key member => ?_⟩
  obtain ⟨segment, inside, named⟩ := List.mem_filterMap.mp member
  cases segment with
  | index => cases named
  | key => cases named; exact all _ inside

theorem ofKeys_injective {keys others : List String} (full : keys ≠ [])
    (clean : ∀ key ∈ keys, (Segment.key key).isClean) (fullOthers : others ≠ [])
    (cleanOthers : ∀ key ∈ others, (Segment.key key).isClean) (same : ofKeys keys = ofKeys others) :
    keys = others := by
  have read := keys?_ofKeys full clean
  rw [same, keys?_ofKeys fullOthers cleanOthers, Option.some.injEq] at read
  exact read.symm

/-- A path of properties leads on from another one only through its names. -/
theorem isPrefix_of_isStrictPrefix {keys others : List String} (full : keys ≠ [])
    (clean : ∀ key ∈ keys, (Segment.key key).isClean) (fullOthers : others ≠ [])
    (cleanOthers : ∀ key ∈ others, (Segment.key key).isClean)
    (leads : isStrictPrefix (ofKeys keys) (ofKeys others)) : keys <+: others ∧ keys ≠ others := by
  constructor
  · have bare := stripIndices_of_keys? (keys?_ofKeys fullOthers cleanOthers)
    have read := split?_ofKeys fullOthers cleanOthers
    rw [← bare] at read leads
    have start := split?_prefix_of_isStrictPrefix (tidy_map_key full clean).tight
      (split?_ofKeys full clean) read leads
    have named : Segment.key? ∘ Segment.key = some := rfl
    have names := start.filterMap Segment.key?
    rwa [List.filterMap_map, List.filterMap_map, named, List.filterMap_some, List.filterMap_some]
      at names
  · rintro rfl
    exact Nat.lt_irrefl _ (length_lt_of_isStrictPrefix leads)

/-! ## Fields of steps -/

section Fields

open StepPath

/-- The field of a step stands behind the name of the step. -/
theorem field?_of_toList {path : String} {name field : List Char} (full : name ≠ [])
    (plain : name.all isStepChar)
    (whole : path.toList = "steps.".toList ++ (name ++ '.' :: field)) :
    field? path = some (String.ofList field) := by
  have stop : ∀ c ∈ ('.' :: field).head?, isStepChar c = false := by
    intro c first
    cases first
    decide
  have taken := takeWhile_append_eq plain stop
  have dropped : (name ++ '.' :: field).dropWhile isStepChar = '.' :: field := by
    have both := List.takeWhile_append_dropWhile (p := isStepChar) (l := name ++ '.' :: field)
    rw [taken] at both
    exact List.append_cancel_left both
  have dot : ['.'].isPrefixOf? ('.' :: field) = some field := isPrefixOf?_append ['.'] field
  have named : name.isEmpty = false := List.isEmpty_eq_false_iff.mpr full
  rw [field?, step?, whole, isPrefixOf?_append]
  simp only [Option.bind_eq_bind, Option.bind_some, taken, dropped, dot, named, Bool.false_eq_true,
    ↓reduceIte, Option.map_some]

/-- A path of properties reads a field of a step if it is the step and the field. -/
theorem field?_ofKeys {keys : List String} {field : String} (full : keys ≠ [])
    (clean : ∀ key ∈ keys, (Segment.key key).isClean) (named : (Segment.key field).isClean) :
    field? (ofKeys keys) = some field ↔ ∃ step, keys = ["steps", step, field] := by
  constructor
  · intro found
    obtain ⟨⟨start, rest⟩, cut, same⟩ := Option.map_eq_some_iff.mp found
    obtain ⟨name, nameFull, plain, rfl, whole⟩ := step?_eq_some cut
    refine ⟨String.ofList name, ?_⟩
    have nameTidy : (Segment.key (String.ofList name)).isTidy := by
      rw [Segment.isTidy, String.toList_ofList, plain, Bool.and_true, decide_eq_true_eq, ne_eq,
        ← String.toList_eq_nil_iff, String.toList_ofList]
      exact nameFull
    have tidy : Tidy [.key "steps", .key (String.ofList name), .key field] := by
      refine ⟨⟨"steps", _, rfl, fun c first => ?_⟩, ?_, ?_⟩
      · cases first
        decide
      · simp only [List.forall_mem_cons]
        exact ⟨by decide, nameTidy, isTidy_key_of_isClean named, List.forall_mem_nil _⟩
      · intro last final c ends
        cases final
        exact isBlank_of_isClean named c (List.mem_of_mem_getLast? ends)
    have text : ofKeys keys = join [.key "steps", .key (String.ofList name), .key field] := by
      rw [← String.toList_inj, whole, toList_join (by decide), joinFrom_true_key, joinFrom_true_key,
        String.toList_ofList, ← same, String.toList_ofList]
      simp [joinFrom]
    have read := split?_ofKeys full clean
    rw [text, split?_join tidy, Option.some.injEq] at read
    have keyed : Segment.key? ∘ Segment.key = some := rfl
    have names := congrArg (List.filterMap Segment.key?) read
    rw [List.filterMap_map, keyed, List.filterMap_some] at names
    exact names.symm
  · rintro ⟨step, rfl⟩
    have stepClean := isTidy_key_of_isClean (clean step (by simp))
    have whole : (ofKeys ["steps", step, field]).toList =
        "steps.".toList ++ (step.toList ++ '.' :: field.toList) := by
      rw [ofKeys, List.map_cons, toList_join (by decide)]
      simp [joinFrom_true_key, joinFrom]
    rw [field?_of_toList (toList_ne_nil_of_isTidy stepClean) (isStepChar_of_isTidy stepClean) whole,
      String.ofList_toList]

end Fields

end Path

end MessageTemplate
