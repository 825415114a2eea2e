import MessageTemplate.Proofs.Path.Read
import MessageTemplate.Proofs.Schema.Conforming

/-! # Paths without their positions

A repeated part of a document, and the key path of a digest, read the elements of an array without
naming one. A path may be read without its positions wherever it may be read with them, unless behind
some positions a property is unknown to the array, or described otherwise than in the elements
(`isPathAllowed_stripIndices_iff`). Both ways of reading are followed side by side from one property to
the next; what lies between are positions (`property_induction`). -/

namespace MessageTemplate.Schema

open MessageTemplate.Path

/-! ## From one property to the next -/

theorem propertySegments_positions (positions : List Nat) :
    propertySegments (positions.map .index) = [] := by
  rw [propertySegments, List.filter_eq_nil_iff]
  intro segment member
  obtain ⟨position, -, rfl⟩ := List.mem_map.mp member
  exact Bool.false_ne_true

theorem propertySegments_append_key (positions : List Nat) (name : String) (behind : List Segment) :
    propertySegments (positions.map .index ++ .key name :: behind) =
      .key name :: propertySegments behind := by
  rw [propertySegments, List.filter_append]
  exact congrArg (· ++ _) (propertySegments_positions positions)

/-- Steps are positions, or positions, a property and other steps. -/
theorem property_induction {motive : List Segment → Prop} (segments : List Segment)
    (ends : ∀ positions : List Nat, motive (positions.map .index))
    (more : ∀ (positions : List Nat) (name : String) (behind : List Segment),
      motive behind → motive (positions.map .index ++ .key name :: behind)) :
    motive segments := by
  have passed : ∀ positions : List Nat, motive (positions.map .index ++ segments) := by
    induction segments with
    | nil =>
      intro positions
      rw [List.append_nil]
      exact ends positions
    | cons segment segments ih =>
      intro positions
      cases segment with
      | key name => exact more positions name segments (ih [])
      | index position =>
        have longer := ih (positions ++ [position])
        rwa [List.map_append, List.append_assoc] at longer
  exact passed []

/-! ## Reading with and without positions -/

variable {schema : Schema} {segments : List Segment}

/-- What diverges is refused without its positions. -/
theorem refused_of_diverges (diverges : Diverges schema segments) :
    schema.allowsSegments (propertySegments segments) = false := by
  induction diverges with
  | unknown _ step closed =>
    rw [propertySegments_append_key, allowsSegments_of_step?_none step, closed]
  | elsewhere step _ refused =>
    rw [propertySegments_append_key, allowsSegments_of_step? step, refused]
  | later _ step _ ih =>
    rw [propertySegments_append_key, allowsSegments_of_step? step, ih]

/-- What is refused without its positions, though it is admitted with them, diverges. -/
theorem diverges_of_refused (allowed : schema.allowsSegments segments = true)
    (refused : schema.allowsSegments (propertySegments segments) = false) :
    Diverges schema segments := by
  induction segments using property_induction generalizing schema with
  | ends positions =>
    rw [propertySegments_positions] at refused
    contradiction
  | more positions name behind ih =>
    rw [propertySegments_append_key] at refused
    cases step : schema.step? (.key name) with
    | none =>
      rw [allowsSegments_of_step?_none step] at refused
      refine .unknown (fun bare => ?_) step refused
      -- without positions both ways of reading end here
      subst bare
      rw [List.map_nil, List.nil_append, allowsSegments_of_step?_none step, refused] at allowed
      contradiction
    | some other =>
      rw [allowsSegments_of_step? step] at refused
      by_cases alike : schema.walk? (positions.map .index ++ [.key name]) = some other
      · have further : schema.allowsSegments ((positions.map .index ++ [.key name]) ++ behind) =
            other.allowsSegments behind := allowsSegments_append_of_walk? alike
        rw [List.append_assoc, List.singleton_append, allowed] at further
        exact .later alike step (ih further.symm refused)
      · exact .elsewhere step alike refused

/-- Steps that may be taken may be taken without the positions exactly if they do not diverge. -/
theorem allowsSegments_propertySegments_iff (allowed : schema.allowsSegments segments = true) :
    schema.allowsSegments (propertySegments segments) = true ↔ ¬Diverges schema segments := by
  constructor
  · intro admitted diverges
    rw [refused_of_diverges diverges] at admitted
    contradiction
  · intro straight
    by_contra refused
    exact straight (diverges_of_refused allowed (Bool.eq_false_iff.mpr refused))

/-- A clean path that may be read may be read without its positions exactly if it does not diverge. -/
theorem isPathAllowed_stripIndices_iff {path : String} (read : split? path = some segments)
    (clean : ∀ segment ∈ segments, segment.isClean)
    (allowed : isPathAllowed (some schema) path = true) :
    isPathAllowed (some schema) (stripIndices path) = true ↔ ¬Diverges schema segments := by
  have bare : split? (stripIndices path) = some (propertySegments segments) := by
    obtain ⟨steps, same, -, tidy⟩ := exists_clean_of_isClean (isClean_of_split? read clean)
    cases read.symm.trans same
    rw [stripIndices_of_split? read, split?_join tidy.propertySegments]
  rw [isPathAllowed_of_split? read] at allowed
  rw [isPathAllowed_of_split? bare]
  exact allowsSegments_propertySegments_iff allowed

/-- The schema of a property `p` that holds objects with a name. -/
def gateOfNames : Schema :=
  gateOfP ⟨.array, [], some ⟨.object, [("name", ⟨.object, [], none, true⟩)], none, false⟩, false⟩

/-- A property that the elements of an array declare is read without the position as well. -/
theorem isPathAllowed_stripIndices_name :
    ofJson (declaringP (arraysOf (closedWith "name"))) = .ok gateOfNames ∧
      isPathAllowed (some gateOfNames) "p[0].name" = true ∧
      isPathAllowed (some gateOfNames) (stripIndices "p[0].name") = true ∧
      ¬Diverges gateOfNames [.key "p", .index 0, .key "name"] := by
  have read : split? "p[0].name" = some [.key "p", .index 0, .key "name"] := by decide +kernel
  have allowed : isPathAllowed (some gateOfNames) "p[0].name" = true := by decide +kernel
  have admitted : isPathAllowed (some gateOfNames) (stripIndices "p[0].name") = true := by
    decide +kernel
  exact ⟨ofJson_declaringP (convert_arraysOf (convert_closedWith _ _)), allowed, admitted,
    (isPathAllowed_stripIndices_iff read (by decide) allowed).mp admitted⟩

/-- A clean path may be read where a document describes the data, but not without its positions. -/
def RefusedBare (document : Json) (path : String) : Prop :=
  ∃ schema segments, ofJson document = .ok schema ∧ split? path = some segments ∧
    (∀ segment ∈ segments, segment.isClean) ∧ isPathAllowed (some schema) path = true ∧
    isPathAllowed (some schema) (stripIndices path) = false

theorem refusedBare_openElements : RefusedBare (declaringP (arraysOf (.bool true))) "p[0].x" :=
  ⟨_, [.key "p", .index 0, .key "x"], ofJson_declaringP (convert_arraysOf (convert_bool _ _)),
    by decide +kernel, by decide, by decide +kernel, by decide +kernel⟩

theorem refusedBare_nestedArrays :
    RefusedBare (declaringP (arraysOf (arraysOf (closedWith "x")))) "p[0][0].x" :=
  ⟨_, [.key "p", .index 0, .index 0, .key "x"],
    ofJson_declaringP (convert_arraysOf (convert_arraysOf (convert_closedWith _ _))),
    by decide +kernel, by decide, by decide +kernel, by decide +kernel⟩

theorem refusedBare_digits : RefusedBare (declaringP (closedWith "0")) "p[0].x" :=
  ⟨_, [.key "p", .index 0, .key "x"], ofJson_declaringP (convert_closedWith _ _),
    by decide +kernel, by decide, by decide +kernel, by decide +kernel⟩

theorem refusedBare_declared : RefusedBare (declaringP (refusing "k")) "p[0].k.x" :=
  ⟨_, [.key "p", .index 0, .key "k", .key "x"], ofJson_declaringP (convert_refusing _ _),
    by decide +kernel, by decide, by decide +kernel, by decide +kernel⟩

theorem refusedBare_position : RefusedBare (declaringP (arraysOf (closedWith "1"))) "p[0].1.x" :=
  ⟨_, [.key "p", .index 0, .key "1", .key "x"],
    ofJson_declaringP (convert_arraysOf (convert_closedWith _ _)),
    by decide +kernel, by decide, by decide +kernel, by decide +kernel⟩

/-- Without their positions are refused: a property of elements that declare none, one behind two
positions, one behind a position whose digits are declared, one that the property itself describes, and
one that is written like a position. -/
theorem refusedBare_of_diverges :
    RefusedBare (declaringP (arraysOf (.bool true))) "p[0].x" ∧
      RefusedBare (declaringP (arraysOf (arraysOf (closedWith "x")))) "p[0][0].x" ∧
      RefusedBare (declaringP (closedWith "0")) "p[0].x" ∧
      RefusedBare (declaringP (refusing "k")) "p[0].k.x" ∧
      RefusedBare (declaringP (arraysOf (closedWith "1"))) "p[0].1.x" :=
  ⟨refusedBare_openElements, refusedBare_nestedArrays, refusedBare_digits, refusedBare_declared,
    refusedBare_position⟩

end MessageTemplate.Schema
