import MessageTemplate.Proofs.Example.Collections
import MessageTemplate.Proofs.Json.Shape

/-! # Arrays in example data

Arrays are written with equal elements and within the limit. A write is made in all elements of an
array alike, so they stay equal, and their number does not change (`uniform_place`). -/

namespace MessageTemplate.Example

open Json

section Writes

variable {limit : Nat} {value root : Json}

theorem uniform_throughArrays {change : Json → Json} (uniform : Uniform limit root)
    (changed : ∀ inner, Uniform limit inner → Uniform limit (change inner)) :
    Uniform limit (throughArrays change root) := by
  induction root using array_induction with
  | plain root plain =>
    rw [throughArrays_of_plain plain]
    exact changed root uniform
  | array items ih =>
    obtain ⟨short, same, each⟩ := uniform_array_iff.mp uniform
    rw [throughArrays, throughItems_eq_map, uniform_array_iff, List.length_map]
    refine ⟨short, ?_, ?_⟩
    · intro item member other present
      obtain ⟨old, here, rfl⟩ := List.mem_map.mp member
      obtain ⟨twin, there, rfl⟩ := List.mem_map.mp present
      rw [same old here twin there]
    · intro item member
      obtain ⟨old, here, rfl⟩ := List.mem_map.mp member
      exact ih old here (each old here)

theorem uniform_insert {key : String} {members : List (String × Json)}
    (each : ∀ entry ∈ members, Uniform limit entry.2) (uniform : Uniform limit value) :
    Uniform limit (.object (Keyed.insert key value members)) := by
  refine uniform_object_iff.mpr fun entry member => ?_
  rcases Keyed.mem_insert member with rfl | present
  · exact uniform
  · exact each entry present

/-- A write keeps the elements of every array equal and their number within a limit, if its value
does. -/
theorem uniform_place {keys : List String} (uniform : Uniform limit root)
    (uniformValue : Uniform limit value) : Uniform limit (place value keys root) := by
  induction keys generalizing root with
  | nil => exact uniform
  | cons key rest ih =>
    rw [place_cons]
    refine uniform_throughArrays uniform fun inner uniformInner => ?_
    have each := uniformInner.of_members
    cases rest with
    | nil =>
      rw [writeInto, putLeaf]
      split
      · exact uniform_object_iff.mpr each
      · exact uniform_insert each uniformValue
    | cons next rest =>
      rw [writeInto, putChild]
      refine uniform_insert each (ih ?_)
      cases found : Keyed.get? key (inner.members?.getD []) with
      | none => exact uniform_object_iff.mpr (List.forall_mem_nil _)
      | some old => exact each (key, old) (Keyed.mem_of_get? found)

theorem uniform_placeAll {writes : List Write} (uniform : Uniform limit root)
    (all : ∀ write ∈ writes, Uniform limit write.2) : Uniform limit (placeAll writes root) := by
  induction writes generalizing root with
  | nil => exact uniform
  | cons write writes ih =>
    obtain ⟨here, later⟩ := List.forall_mem_cons.mp all
    exact ih (uniform_place uniform here) later

theorem uniform_repeated {count : Nat} {element : Json} (within : count ≤ limit)
    (uniform : Uniform limit element) : Uniform limit (repeated count element) := by
  refine uniform_array_iff.mpr ⟨List.length_replicate.trans_le within, ?_, ?_⟩
  · intro item member other present
    rw [List.eq_of_mem_replicate member, List.eq_of_mem_replicate present]
  · intro item member
    rwa [List.eq_of_mem_replicate member]

theorem uniform_empty : Uniform limit (.object []) :=
  uniform_object_iff.mpr (List.forall_mem_nil _)

theorem uniform_payloadOfEvents (digestPaths : List String) (events : String) :
    Uniform limit (payloadOfEvents digestPaths events) := by
  rw [payloadOfEvents_eq]
  refine uniform_placeAll uniform_empty fun write member => ?_
  obtain ⟨path, -, keys, -, rfl⟩ := mem_writesAt.mp member
  exact uniform_scalar rfl rfl

end Writes

namespace Builder

variable {builder : Builder} {arrays : List DeclaredArray}

theorem iterations_le_of_mem_collections {paths : List String} {array : DeclaredArray}
    (member : array ∈ builder.collections arrays paths) :
    array.iterations ≤ builder.maxIterations := by
  rcases mem_collections.mp member with declared | implied
  · obtain ⟨given, -, rfl⟩ := List.mem_map.mp declared
    exact min_le_right _ _
  · refine forall_implied (fun array => array.iterations ≤ builder.maxIterations) ?_ array implied
    intro path _ array _
    exact min_le_right _ _

/-- Whatever example data is made for, and however many elements are asked for, each array in it has
at most as many elements as the limit leaves, and all of them are equal. -/
theorem build_uniform (builder : Builder) (paths : List String) (arrays : List DeclaredArray)
    (flags : List String) : Uniform builder.maxIterations (builder.build paths arrays flags) := by
  rw [build_eq_placeAll]
  refine uniform_placeAll uniform_empty fun write member => ?_
  rcases List.mem_append.mp member with digest | later
  · obtain ⟨events, -, keys, -, rfl⟩ := mem_writesAt.mp digest
    refine uniform_repeated (min_le_right _ _) (uniform_object_iff.mpr ?_)
    rw [List.forall_mem_singleton]
    exact uniform_payloadOfEvents _ _
  · rcases List.mem_append.mp later with collection | leaf
    · obtain ⟨array, given, keys, -, rfl⟩ := mem_writesAt.mp collection
      exact uniform_repeated (iterations_le_of_mem_collections given) uniform_empty
    · obtain ⟨noItems, noMembers⟩ := plain_of_mem_leafWrites leaf
      exact uniform_scalar noItems noMembers

end Builder

end MessageTemplate.Example
