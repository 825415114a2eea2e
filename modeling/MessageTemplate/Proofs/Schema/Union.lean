import MessageTemplate.Proofs.Path.Read
import MessageTemplate.Proofs.Schema.Conforming

/-! # Unions

A union declares what any of its alternatives declares, as the first one describes it; it describes
elements as the first alternative does that describes any; and it admits undeclared properties if any
alternative does. So a path that may be read by an alternative may be read by the union, unless another
alternative overrules it (`isPathAllowed_union_iff`). -/

namespace MessageTemplate.Schema

/-! ## What a union describes -/

/-- Entries that are added where their keys are new do not hide those that were there. -/
theorem get?_foldl_insertNew (name : String) (added entries : Keyed Schema) :
    Keyed.get? name
        (added.foldl (fun properties entry => Keyed.insertNew entry.1 entry.2 properties) entries) =
      (Keyed.get? name entries).or (Keyed.get? name added) := by
  induction added generalizing entries with
  | nil => exact Option.or_none.symm
  | cons entry added ih =>
    obtain ⟨other, schema⟩ := entry
    rw [List.foldl_cons, ih, Keyed.get?_insertNew, Option.or_assoc, Keyed.get?]
    split
    · rfl
    · rw [Option.none_or]

theorem property?_addVariant (name : String) (merged variant : Schema) :
    (addVariant merged variant).property? name =
      (merged.property? name).or (variant.property? name) :=
  get?_foldl_insertNew name variant.properties merged.properties

theorem property?_foldl_addVariant (name : String) (variants : List Schema) (merged : Schema) :
    (variants.foldl addVariant merged).property? name =
      (merged.property? name).or (variants.findSome? (property? name)) := by
  induction variants generalizing merged with
  | nil => exact Option.or_none.symm
  | cons variant variants ih =>
    rw [List.foldl_cons, ih, property?_addVariant, Option.or_assoc, List.findSome?_cons]
    cases variant.property? name with
    | none => rw [Option.none_or]
    | some schema => rfl

theorem items_foldl_addVariant (variants : List Schema) (merged : Schema) :
    (variants.foldl addVariant merged).items = merged.items.or (variants.findSome? items) := by
  induction variants generalizing merged with
  | nil => exact Option.or_none.symm
  | cons variant variants ih =>
    rw [List.foldl_cons, ih, List.findSome?_cons, addVariant]
    cases merged.items with
    | some elements => rfl
    | none =>
      cases variant.items with
      | none => rfl
      | some elements => rfl

theorem additional_foldl_addVariant (variants : List Schema) (merged : Schema) :
    (variants.foldl addVariant merged).additional =
      (merged.additional || variants.any additional) := by
  induction variants generalizing merged with
  | nil => exact (Bool.or_false _).symm
  | cons variant variants ih =>
    rw [List.foldl_cons, ih, List.any_cons, addVariant, Bool.or_assoc]

theorem kind_union (variants : List Schema) : (union variants).kind = .union := by
  have kept : ∀ merged : Schema, merged.kind = .union →
      (variants.foldl addVariant merged).kind = .union := by
    induction variants with
    | nil => exact fun _ same => same
    | cons variant variants ih => exact fun merged _ => ih (addVariant merged variant) rfl
  exact kept (leaf .union) rfl

/-- The first alternative that declares a property describes it. -/
theorem property?_union (variants : List Schema) (name : String) :
    (union variants).property? name = variants.findSome? (property? name) :=
  property?_foldl_addVariant name variants (leaf .union)

/-- The first alternative that describes elements describes them. -/
theorem elements?_union (variants : List Schema) :
    (union variants).elements? = variants.findSome? items := by
  rw [elements?, kind_union]
  exact items_foldl_addVariant variants (leaf .union)

/-- Any alternative may admit undeclared properties. -/
theorem additional_union (variants : List Schema) :
    (union variants).additional = variants.any additional :=
  additional_foldl_addVariant variants (leaf .union)

theorem step?_union (variants : List Schema) (segment : Segment) :
    (union variants).step? segment =
      (variants.findSome? (property? segment.asKey)).or
        ((variants.findSome? items).bind fun elements => elements.within? segment) := by
  rw [step?_eq, property?_union, elements?_union]

/-! ## Reading by an alternative -/

section Alternatives

variable {variants : List Schema} {member : Schema} {segments : List Segment}

/-- Where no alternative declares a property or describes elements, none of them leads on. -/
theorem step?_eq_none_of_items {segment : Segment} (mem : member ∈ variants)
    (undeclared : variants.findSome? (property? segment.asKey) = none)
    (bare : variants.findSome? items = none) : member.step? segment = none := by
  have own := List.findSome?_eq_none_iff.mp undeclared member mem
  have items := List.findSome?_eq_none_iff.mp bare member mem
  have elements : member.elements? = none := by
    rw [elements?]
    split
    · exact items
    · exact items
    · rfl
  rw [step?_eq, own, elements]
  rfl

theorem refused_of_overruled (overruled : Overruled variants member segments) :
    (union variants).allowsSegments segments = false := by
  cases overruled with
  | @declared segment rest next found _ refused =>
    have step : (union variants).step? segment = some next := by
      rw [step?_union, found]
      rfl
    rw [allowsSegments_of_step? step, refused]
  | @elements segment rest elements next undeclared found inside _ refused =>
    have step : (union variants).step? segment = some next := by
      rw [step?_union, undeclared, found]
      exact inside
    rw [allowsSegments_of_step? step, refused]
  | @closed segment rest elements next undeclared found inside _ closed =>
    have step : (union variants).step? segment = none := by
      rw [step?_union, undeclared, found]
      exact inside
    rw [allowsSegments_of_step?_none step, additional_union]
    exact List.any_eq_false.mpr fun variant mem => by rw [closed variant mem]; exact Bool.false_ne_true

/-- A union that refuses what an alternative admits goes another way than the alternative. -/
theorem overruled_of_refused (mem : member ∈ variants)
    (allowed : member.allowsSegments segments = true)
    (refused : (union variants).allowsSegments segments = false) :
    Overruled variants member segments := by
  cases segments with
  | nil => contradiction
  | cons segment rest =>
    have step := step?_union variants segment
    -- the union and the alternative cannot go on alike
    have parts {next : Schema} (found : (union variants).step? segment = some next) :
        member.step? segment ≠ some next ∧ next.allowsSegments rest = false := by
      rw [allowsSegments_of_step? found] at refused
      refine ⟨fun same => ?_, refused⟩
      rw [allowsSegments_of_step? same, refused] at allowed
      contradiction
    -- where the union ends, no alternative is open, so this one goes on
    have ends (found : (union variants).step? segment = none) :
        (∀ variant ∈ variants, variant.additional = false) ∧
          ∃ next, member.step? segment = some next := by
      rw [allowsSegments_of_step?_none found, additional_union] at refused
      have closed : ∀ variant ∈ variants, variant.additional = false := fun variant mem =>
        Bool.eq_false_iff.mpr (List.any_eq_false.mp refused variant mem)
      refine ⟨closed, Option.ne_none_iff_exists'.mp fun none => ?_⟩
      rw [allowsSegments_of_step?_none none, closed member mem] at allowed
      contradiction
    cases declared : variants.findSome? (property? segment.asKey) with
    | some next =>
      rw [declared, Option.some_or] at step
      exact .declared declared (parts step).1 (parts step).2
    | none =>
      rw [declared, Option.none_or] at step
      cases described : variants.findSome? items with
      | none =>
        rw [described] at step
        obtain ⟨-, next, found⟩ := ends step
        rw [step?_eq_none_of_items mem declared described] at found
        contradiction
      | some elements =>
        rw [described, Option.bind_some] at step
        cases inside : elements.within? segment with
        | some next =>
          rw [inside] at step
          exact .elements declared described inside (parts step).1 (parts step).2
        | none =>
          rw [inside] at step
          obtain ⟨closed, next, found⟩ := ends step
          exact .closed declared described inside found closed

/-- A union takes the steps that an alternative takes exactly if no other alternative overrules it. -/
theorem allowsSegments_union_iff (mem : member ∈ variants)
    (allowed : member.allowsSegments segments = true) :
    (union variants).allowsSegments segments = true ↔ ¬Overruled variants member segments := by
  constructor
  · intro admitted overruled
    rw [refused_of_overruled overruled] at admitted
    contradiction
  · intro straight
    by_contra refused
    exact straight (overruled_of_refused mem allowed (Bool.eq_false_iff.mpr refused))

end Alternatives

/-! ## Union documents -/

theorem convertVariants_of_forall₂ {documents : List Json} {variants : List Schema}
    (accepted : List.Forall₂ (fun document schema => ofJson document = .ok schema) documents variants)
    (place : String) (number : Nat) : convertVariants place number documents = .ok variants := by
  induction accepted generalizing number with
  | nil => rw [convertVariants]
  | cons first _ ih =>
    rw [convertVariants, convert_anywhere first, ih]
    rfl

/-- A document of alternatives, each of which is accepted, is converted to their union. -/
theorem ofJson_union {documents : List Json} {variants : List Schema} {keyword : String}
    (accepted : List.Forall₂ (fun document schema => ofJson document = .ok schema) documents variants)
    (united : keyword = "anyOf" ∨ keyword = "oneOf") :
    ofJson (.object [(keyword, .array documents)]) = .ok (union variants) := by
  have alternatives : variants? [(keyword, .array documents)] = some documents := by
    rcases united with rfl | rfl
    · rfl
    · rfl
  rw [ofJson, convert_union alternatives, convertVariants_of_forall₂ accepted]
  rfl

/-- The union of documents that are accepted one by one is accepted, and a path that may be read by an
alternative may be read by the union exactly if no other alternative overrules it. -/
theorem isPathAllowed_union_iff {documents : List Json} {variants : List Schema} {keyword path : String}
    {member : Schema} {segments : List Segment}
    (accepted : List.Forall₂ (fun document schema => ofJson document = .ok schema) documents variants)
    (united : keyword = "anyOf" ∨ keyword = "oneOf") (mem : member ∈ variants)
    (read : Path.split? path = some segments) (allowed : isPathAllowed (some member) path = true) :
    ∃ schema, ofJson (.object [(keyword, .array documents)]) = .ok schema ∧
      (isPathAllowed (some schema) path = true ↔ ¬Overruled variants member segments) := by
  refine ⟨union variants, ofJson_union accepted united, ?_⟩
  rw [isPathAllowed_of_split? read] at allowed ⊢
  exact allowsSegments_union_iff mem allowed

/-- The schema that `closedWith` is converted to. -/
def gateOfClosed (name : String) : Schema :=
  ⟨.object, [(name, ⟨.object, [], none, true⟩)], none, false⟩

theorem forall₂_closedWith (names : List String) :
    List.Forall₂ (fun document schema => ofJson document = .ok schema) (names.map closedWith)
      (names.map gateOfClosed) := by
  induction names with
  | nil => exact .nil
  | cons name names ih => exact .cons (convert_closedWith "#" name) ih

/-- Alternatives that declare different properties do not overrule each other. -/
theorem isPathAllowed_union_closedWith :
    List.Forall₂ (fun document schema => ofJson document = .ok schema)
        [closedWith "a", closedWith "b"] [gateOfClosed "a", gateOfClosed "b"] ∧
      isPathAllowed (some (gateOfClosed "b")) "b.x" = true ∧
      ∃ schema, ofJson (.object [("anyOf", .array [closedWith "a", closedWith "b"])]) = .ok schema ∧
        isPathAllowed (some schema) "b.x" = true := by
  have accepted := forall₂_closedWith ["a", "b"]
  have read : Path.split? "b.x" = some [.key "b", .key "x"] := by decide +kernel
  have allowed : isPathAllowed (some (gateOfClosed "b")) "b.x" = true := by decide +kernel
  have straight : ¬Overruled [gateOfClosed "a", gateOfClosed "b"] (gateOfClosed "b")
      [.key "b", .key "x"] := by
    intro overruled
    cases overruled with
    | declared found other _ => exact other found
    | elements undeclared => cases undeclared
    | closed undeclared => cases undeclared
  obtain ⟨schema, converted, admitted⟩ := isPathAllowed_union_iff accepted (.inl rfl)
    (List.mem_cons_of_mem _ List.mem_cons_self) read allowed
  exact ⟨accepted, allowed, schema, converted, admitted.mpr straight⟩

/-- A path may be read by an alternative of a union whose alternatives are accepted one by one, but not
by the union. -/
def RefusedByUnion (documents : List Json) (path : String) : Prop :=
  ∃ variants member whole,
    List.Forall₂ (fun document schema => ofJson document = .ok schema) documents variants ∧
      member ∈ variants ∧ ofJson (.object [("anyOf", .array documents)]) = .ok whole ∧
      isPathAllowed (some member) path = true ∧ isPathAllowed (some whole) path = false

theorem refusedByUnion_of_pair {first second : Json} {left right : Schema} {path : String}
    (convertedLeft : convert "#" first = .ok left) (convertedRight : convert "#" second = .ok right)
    (allowed : isPathAllowed (some right) path = true)
    (refused : isPathAllowed (some (union [left, right])) path = false) :
    RefusedByUnion [first, second] path := by
  have accepted : List.Forall₂ (fun document schema => ofJson document = .ok schema) [first, second]
      [left, right] := .cons convertedLeft (.cons convertedRight .nil)
  exact ⟨[left, right], right, union [left, right], accepted,
    List.mem_cons_of_mem _ List.mem_cons_self, ofJson_union accepted (.inl rfl), allowed, refused⟩

/-- An alternative is overruled by the first one that declares the property, by the first one that
describes elements, where the property is written like a position, and by elements that do not declare
what its own elements declare. -/
theorem refusedByUnion_of_overruled :
    RefusedByUnion [refusing "a", closedWith "a"] "a.x" ∧
      RefusedByUnion [arraysOf (.bool false), .bool true] "0.x" ∧
      RefusedByUnion [arraysOf (.bool false), arraysOf (closedWith "x")] "x" :=
  ⟨refusedByUnion_of_pair (convert_refusing _ _) (convert_closedWith _ _) (by decide +kernel)
      (by decide +kernel),
    refusedByUnion_of_pair (convert_arraysOf (convert_bool _ _)) (convert_bool _ _)
      (by decide +kernel) (by decide +kernel),
    refusedByUnion_of_pair (convert_arraysOf (convert_bool _ _))
      (convert_arraysOf (convert_closedWith _ _)) (by decide +kernel) (by decide +kernel)⟩

end MessageTemplate.Schema
