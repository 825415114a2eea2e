import MessageTemplate.Proofs.Path.Read
import MessageTemplate.Proofs.Schema.Conversion
import MessageTemplate.Proofs.Schema.Steps

/-! # The gate and values that conform

A path that leads to a place of a value may be read wherever the value conforms to the schema, exactly if
the path does not stray (`isPathAllowed_iff_not_strays`). A path that strays is refused whatever the value
(`allowsSegments_of_strays`). The other paths are followed step by step: the description that a step
leads to is converted from the schema that the value behind it conforms to, so the induction runs over the
steps. -/

namespace MessageTemplate.Schema

/-! ## Parts of schema documents -/

/-- The parts of a schema document without unions are without unions. -/
structure PlainParts (members : Keyed Json) : Prop where
  united : variants? members = none
  property : ∀ name schema, Keyed.get? name (declaredProperties members) = some schema →
    Plain schema
  items : ∀ schema, elementSchema? members = some schema →
    Keyed.get? "items" members = some schema ∧ Plain schema
  additional : ∀ schema, Keyed.get? "additionalProperties" members = some schema → Plain schema

theorem Plain.parts {members : List (String × Json)} (plain : Plain (.object members)) :
    PlainParts members := by
  cases plain with
  | keywords anyOf oneOf properties items additional =>
    refine ⟨by rw [variants?, anyOf, oneOf]; rfl, properties, fun schema described => ?_, additional⟩
    unfold elementSchema? at described
    split at described
    · exact ⟨described, items schema described⟩
    · contradiction

/-! ## Elements and further properties -/

variable {members : Keyed Json} {kind : SchemaKind} {schema : Schema}

theorem KindGiven.goesByElements_iff (given : KindGiven members kind) :
    goesByElements members = true ↔ kind = .array ∨ kind = .union := by
  unfold goesByElements
  cases given with
  | @single name types named =>
    rw [types]
    unfold SchemaKind.ofName at named
    split at named <;> cases named <;> simp_all
  | nothing types same => simp [types, same]
  | @several names types long same =>
    rw [types]
    match names, long with
    | _ :: _ :: _, _ => simp [same]
  | untyped types same =>
    rw [types, same]
    cases Keyed.has "properties" members <;> cases Keyed.has "items" members <;> simp

/-- The gate goes on by the schema of the elements exactly if it describes elements. -/
theorem ConvertedFrom.elements (converted : ConvertedFrom members schema) :
    Converts (elementSchema? members) schema.elements? := by
  have goes := converted.kind.goesByElements_iff
  have items := converted.items
  unfold elementSchema? elements?
  split
  · next on =>
    rcases goes.mp on with array | union
    · rwa [array]
    · rwa [union]
  · next off =>
    split
    · next array => exact absurd (goes.mpr (.inl array)) off
    · next union => exact absurd (goes.mpr (.inr union)) off
    · exact .absent

/-- The type of a value that is not `null` is one that the schema asks for. -/
theorem mem_types_of_fitsType {value : Json} {type : String}
    (own : ∀ name, hasType name value → name = type) (real : type ≠ "null")
    (fits : fitsType members value = true) {names : List String}
    (types : typesOf? members = some names) : type ∈ names := by
  unfold typesOf? at types
  unfold fitsType at fits
  split at types
  · next name asked =>
    obtain rfl := Option.some.inj types
    rw [asked] at fits
    exact List.mem_singleton.mpr (own name fits).symm
  · next all asked =>
    obtain rfl := Option.some.inj types
    rw [asked] at fits
    obtain ⟨name, member, has⟩ := List.any_eq_true.mp fits
    obtain rfl := own name has
    exact List.mem_filter.mpr ⟨member, decide_eq_true real⟩
  · contradiction

theorem elementSchema?_of_untyped (untyped : typesOf? members = none) :
    elementSchema? members =
      if Keyed.has "properties" members then none else Keyed.get? "items" members := by
  rw [elementSchema?, goesByElements, untyped]
  cases Keyed.has "properties" members <;> rfl

/-- A schema for an object or an array admits any property, unless it asks for arrays alone or
describes elements without asking for a type. -/
theorem KindGiven.open_of_mem (given : KindGiven members kind) {type : String}
    (fits : ∀ names, typesOf? members = some names → type ∈ names)
    (compound : type = "object" ∨ type = "array") (wide : typesOf? members ≠ some ["array"])
    (known : typesOf? members = none → elementSchema? members = none) :
    kind = .object ∨ kind = .union := by
  cases given with
  | @single name types named =>
    obtain rfl := List.mem_singleton.mp (fits _ types)
    rcases compound with rfl | rfl
    · exact .inl (Except.ok.inj named).symm
    · exact absurd types wide
  | nothing types same => cases fits _ types
  | several types long same => exact .inr same
  | untyped types same =>
    rw [same]
    split
    · exact .inl rfl
    next bare =>
    split
    · next items =>
      have none := known types
      rw [elementSchema?_of_untyped types, if_neg bare] at none
      simp [Keyed.has, none] at items
    · exact .inr rfl

theorem admitsAdditional_eq_true
    (plain : ∀ schema, Keyed.get? "additionalProperties" members = some schema → Plain schema)
    (allowed : Keyed.get? "additionalProperties" members ≠ some (.bool false))
    (unsaid : Keyed.get? "additionalProperties" members = none → kind = .object ∨ kind = .union) :
    admitsAdditional kind members = true := by
  unfold admitsAdditional
  cases found : Keyed.get? "additionalProperties" members with
  | none => simpa using unsaid found
  | some schema =>
    cases plain schema found with
    | @trivial admits =>
      cases admits with
      | true => rfl
      | false => exact absurd found allowed
    | keywords => rfl

/-! ## The steps of a path -/

/-- The gate at a place goes by what the document there is converted to. -/
theorem gateRefuses_iff {place : String} {document : Json} {segments : List Segment}
    (converted : convert place document = .ok schema) :
    GateRefuses document segments ↔ schema.allowsSegments segments = false := by
  have same : ofJson document = .ok schema := convert_anywhere converted "#"
  constructor
  · rintro ⟨other, given, refused⟩
    obtain rfl := Except.ok.inj (same.symm.trans given)
    exact refused
  · exact fun refused => ⟨schema, same, refused⟩

theorem Converts.refuses_iff {segment : Segment} {rest : List Segment} {document : Json}
    (converts : Converts (some document) (schema.step? segment)) :
    schema.allowsSegments (segment :: rest) = false ↔ GateRefuses document rest := by
  obtain ⟨place, next, converted, step⟩ := converts.of_some
  rw [allowsSegments_of_step? step, gateRefuses_iff converted]

theorem ConvertedFrom.step_declared (whole : ConvertedFrom members schema) (segment : Segment)
    {document : Json}
    (declared : Keyed.get? segment.asKey (declaredProperties members) = some document) :
    Converts (some document) (schema.step? segment) := by
  have property := whole.property segment.asKey
  rw [declared] at property
  obtain ⟨place, next, converted, found⟩ := property.of_some
  rw [step?, found]
  exact .present converted

/-- Beyond the declared properties a position leads to what the gate goes by for the elements. -/
theorem ConvertedFrom.step_index (whole : ConvertedFrom members schema) {position : Nat}
    (undeclared : Keyed.get? (toString position) (declaredProperties members) = none) :
    Converts (elementSchema? members) (schema.step? (.index position)) := by
  have property := whole.property (toString position)
  rw [undeclared] at property
  rw [step?_index property.of_none]
  exact whole.elements

theorem converts_withinItems? (name : String) {place : String} {items : Json} {elements : Schema}
    (plain : Plain items) (converted : convert place items = .ok elements) :
    Converts (withinItems? items name) (elements.within? (.key name)) := by
  rw [withinItems?, within?]
  split
  · exact .present converted
  · cases plain with
    | trivial =>
      rw [convert] at converted
      obtain rfl := Except.ok.inj converted
      exact .absent
    | @keywords members anyOf oneOf properties items additional =>
      have parts := (Plain.keywords anyOf oneOf properties items additional).parts
      exact (convertedFrom_of_convert parts.united converted).property name

/-- Beyond the declared properties a property leads to what is found within the elements. -/
theorem ConvertedFrom.step_key (whole : ConvertedFrom members schema) (parts : PlainParts members)
    {name : String} (undeclared : Keyed.get? name (declaredProperties members) = none) :
    Converts ((elementSchema? members).bind fun items => withinItems? items name)
      (schema.step? (.key name)) := by
  have property := whole.property name
  have elements := whole.elements
  rw [undeclared] at property
  rw [step?_key property.of_none]
  cases described : elementSchema? members with
  | none =>
    rw [described] at elements
    rw [elements.of_none]
    exact .absent
  | some items =>
    rw [described] at elements
    obtain ⟨place, inner, converted, found⟩ := elements.of_some
    rw [found]
    exact converts_withinItems? name (parts.items items described).2 converted

theorem elementSchema?_of_nextSchema? {position : Nat} {document : Json}
    (next : nextSchema? members (.index position) = some document) :
    Keyed.get? (toString position) (declaredProperties members) = none ∧
      elementSchema? members = some document := by
  rw [nextSchema?] at next
  split at next
  · contradiction
  · next undeclared => exact ⟨undeclared, next⟩

/-- The gate goes on by the schema behind a step. -/
theorem ConvertedFrom.step_next (whole : ConvertedFrom members schema) {segment : Segment}
    {document : Json} (next : nextSchema? members segment = some document) :
    Converts (some document) (schema.step? segment) := by
  cases segment with
  | key name => exact whole.step_declared (.key name) next
  | index position =>
    obtain ⟨undeclared, described⟩ := elementSchema?_of_nextSchema? next
    rw [← described]
    exact whole.step_index undeclared

theorem PlainParts.next (parts : PlainParts members) {segment : Segment} {document : Json}
    (next : nextSchema? members segment = some document) : Plain document := by
  cases segment with
  | key name => exact parts.property name document next
  | index position => exact (parts.items document (elementSchema?_of_nextSchema? next).2).2

/-! ## Paths that stray -/

theorem KindGiven.eq_array_of_only (given : KindGiven members kind)
    (only : typesOf? members = some ["array"]) : kind = .array := by
  cases given with
  | single types named =>
    obtain rfl : "array" = _ := List.singleton_injective (Option.some.inj (only.symm.trans types))
    exact (Except.ok.inj named).symm
  | nothing types => rw [only] at types; contradiction
  | several types long =>
    obtain rfl : ["array"] = _ := Option.some.inj (only.symm.trans types)
    contradiction
  | untyped types => rw [only] at types; contradiction

theorem KindGiven.eq_array_of_untyped (given : KindGiven members kind) {items : Json}
    (untyped : typesOf? members = none) (described : elementSchema? members = some items) :
    kind = .array := by
  cases given with
  | untyped _ same =>
    rw [elementSchema?_of_untyped untyped] at described
    split at described
    · contradiction
    next bare =>
    rw [same, if_neg bare, if_pos]
    rw [Keyed.has, described]
    rfl
  | single types | nothing types | several types => rw [untyped] at types; contradiction

theorem admitsAdditional_eq_false
    (closed : Keyed.get? "additionalProperties" members = some (.bool false) ∨
      (Keyed.get? "additionalProperties" members = none ∧ kind = .array)) :
    admitsAdditional kind members = false := by
  unfold admitsAdditional
  obtain refused | ⟨unsaid, rfl⟩ := closed
  · rw [refused]
  · rw [unsaid]
    rfl

theorem ConvertedFrom.refuses_of_misses (whole : ConvertedFrom members schema)
    (parts : PlainParts members) {segment : Segment} {rest : List Segment}
    (misses : Misses members segment rest) : schema.allowsSegments (segment :: rest) = false := by
  cases misses with
  | undescribed undeclared described closed =>
    have step := whole.step_index undeclared
    rw [described] at step
    rw [allowsSegments_of_step?_none step.of_none, whole.additional]
    exact admitsAdditional_eq_false (closed.imp_right (.imp_right whole.kind.eq_array_of_only))
  | digits declared refuses =>
    exact (whole.step_declared (.index _) declared).refuses_iff.mpr refuses
  | untyped undeclared described unknown untyped unsaid =>
    have step := whole.step_key parts undeclared
    rw [described, Option.bind_some, unknown] at step
    rw [allowsSegments_of_step?_none step.of_none, whole.additional]
    exact admitsAdditional_eq_false
      (.inr ⟨unsaid, whole.kind.eq_array_of_untyped untyped described⟩)
  | element undeclared described found refuses =>
    have step := whole.step_key parts undeclared
    rw [described, Option.bind_some, found] at step
    exact step.refuses_iff.mpr refuses

/-- A path that strays is refused. -/
theorem allowsSegments_of_strays {document : Json} {segments : List Segment}
    (strays : Strays document segments) (plain : Plain document) {place : String}
    (converted : convert place document = .ok schema) : schema.allowsSegments segments = false := by
  induction strays generalizing place schema with
  | here misses =>
    exact (convertedFrom_of_convert plain.parts.united converted).refuses_of_misses plain.parts misses
  | later next strays ih =>
    have whole := convertedFrom_of_convert plain.parts.united converted
    obtain ⟨place, inner, converted, step⟩ := (whole.step_next next).of_some
    rw [allowsSegments_of_step? step]
    exact ih (plain.parts.next next) converted

/-! ## Paths that do not stray -/

/-- An object that conforms may be read at any property that is neither declared nor taken for an
element, unless elements are described and no type is asked for. -/
theorem ConvertedFrom.admits_key {fields : List (String × Json)} {name : String} {field : Json}
    (whole : ConvertedFrom members schema)
    (plain : ∀ schema, Keyed.get? "additionalProperties" members = some schema → Plain schema)
    (fits : fitsType members (.object fields) = true)
    (conforms : ∀ schema, schemaOfProperty? members name = some schema → Conforms schema field)
    (undeclared : Keyed.get? name (declaredProperties members) = none)
    (typed : typesOf? members = none → Keyed.get? "additionalProperties" members = none →
      elementSchema? members = none) : schema.additional = true := by
  have asks : ∀ names, typesOf? members = some names → "object" ∈ names := fun names types =>
    mem_types_of_fitsType (fun name has => by simpa [hasType] using has) (by decide) fits types
  have general : schemaOfProperty? members name = Keyed.get? "additionalProperties" members := by
    rw [schemaOfProperty?, undeclared]
  rw [whole.additional]
  refine admitsAdditional_eq_true plain (fun refused => ?_) fun unsaid => ?_
  · exact not_conforms_false field (conforms _ (general.trans refused))
  · refine whole.kind.open_of_mem asks (.inl rfl) (fun only => ?_) fun untyped => typed untyped unsaid
    have := asks _ only
    simp at this

/-- An array that conforms may be read at any position that is no declared property, even where the
elements are not described, unless further properties are refused or only arrays are asked for. -/
theorem ConvertedFrom.admits_index {items : List Json} (whole : ConvertedFrom members schema)
    (plain : ∀ schema, Keyed.get? "additionalProperties" members = some schema → Plain schema)
    (fits : fitsType members (.array items) = true)
    (undescribed : elementSchema? members = none)
    (wide : ¬(Keyed.get? "additionalProperties" members = some (.bool false) ∨
      (Keyed.get? "additionalProperties" members = none ∧ typesOf? members = some ["array"]))) :
    schema.additional = true := by
  have asks : ∀ names, typesOf? members = some names → "array" ∈ names := fun names types =>
    mem_types_of_fitsType (fun name has => by simpa [hasType] using has) (by decide) fits types
  rw [whole.additional]
  exact admitsAdditional_eq_true plain (fun refused => wide (.inl refused)) fun unsaid =>
    whole.kind.open_of_mem asks (.inr rfl) (fun only => wide (.inr ⟨unsaid, only⟩))
      fun _ => undescribed

/-- An object that conforms may be read at a property that is not declared, whatever is behind it. -/
theorem ConvertedFrom.allows_key {fields : List (String × Json)} {name : String} {field : Json}
    {rest : List Segment} (whole : ConvertedFrom members schema) (parts : PlainParts members)
    (fits : fitsType members (.object fields) = true)
    (conforms : ∀ schema, schemaOfProperty? members name = some schema → Conforms schema field)
    (straight : ¬Misses members (.key name) rest)
    (undeclared : Keyed.get? name (declaredProperties members) = none) :
    schema.allowsSegments (.key name :: rest) = true := by
  have step := whole.step_key parts undeclared
  have admits := whole.admits_key parts.additional fits conforms undeclared
  cases described : elementSchema? members with
  | none =>
    rw [described] at step
    exact (allowsSegments_of_step?_none step.of_none).trans (admits fun _ _ => described)
  | some items =>
    rw [described, Option.bind_some] at step
    cases found : withinItems? items name with
    | none =>
      rw [found] at step
      refine (allowsSegments_of_step?_none step.of_none).trans (admits fun untyped unsaid => ?_)
      exact absurd (.untyped undeclared described found untyped unsaid) straight
    | some next =>
      rw [found] at step
      refine Bool.of_not_eq_false fun refused => straight ?_
      exact .element undeclared described found (step.refuses_iff.mp refused)

/-- An array that conforms may be read at a position where it is not followed into the elements. -/
theorem ConvertedFrom.allows_index {items : List Json} {position : Nat} {rest : List Segment}
    (whole : ConvertedFrom members schema) (parts : PlainParts members)
    (fits : fitsType members (.array items) = true)
    (straight : ¬Misses members (.index position) rest)
    (last : nextSchema? members (.index position) = none) :
    schema.allowsSegments (.index position :: rest) = true := by
  rw [nextSchema?] at last
  split at last
  · next property declared =>
    refine Bool.of_not_eq_false fun refused => straight ?_
    exact .digits declared ((whole.step_declared (.index position) declared).refuses_iff.mp refused)
  · next undeclared =>
    have step := whole.step_index undeclared
    rw [last] at step
    refine (allowsSegments_of_step?_none step.of_none).trans ?_
    exact whole.admits_index parts.additional fits last fun refused =>
      straight (.undescribed undeclared last refused)

/-- The steps that lead to a place of a value may be taken if the value conforms to the schema, unless
they stray. -/
theorem allowsSegments_of_conforms {segments : List Segment} {document value leaf : Json}
    {place : String} {schema : Schema} (converted : convert place document = .ok schema)
    (plain : Plain document) (conforms : Conforms document value)
    (resolves : value.resolve? segments = some leaf) (straight : ¬Strays document segments) :
    schema.allowsSegments segments = true := by
  induction segments generalizing document value place schema with
  | nil => rfl
  | cons segment rest ih =>
    rw [Json.resolve?_cons] at resolves
    obtain ⟨part, step, reached⟩ := Option.bind_eq_some_iff.mp resolves
    cases conforms with
    | anything =>
      rw [convert] at converted
      obtain rfl := Except.ok.inj converted
      rfl
    | @keywords members _ fits fields elements =>
      have parts := plain.parts
      have whole := convertedFrom_of_convert parts.united converted
      have misses : ¬Misses members segment rest := fun misses => straight (.here misses)
      have behind {document : Json} (next : nextSchema? members segment = some document)
          (conforms : Conforms document part) : schema.allowsSegments (segment :: rest) = true := by
        obtain ⟨place, inner, converted, leads⟩ := (whole.step_next next).of_some
        rw [allowsSegments_of_step? leads]
        exact ih converted (parts.next next) conforms reached fun strays => straight (.later next strays)
      cases segment with
      | key name =>
        cases value with
        | object all =>
          have conforms schema := fields all name part schema rfl step
          cases declared : Keyed.get? name (declaredProperties members) with
          | some document =>
            exact behind declared (conforms document (by rw [schemaOfProperty?, declared]))
          | none => exact whole.allows_key parts fits conforms misses declared
        | _ => contradiction
      | index position =>
        cases value with
        | array all =>
          have member : part ∈ all := List.mem_of_getElem? step
          cases next : nextSchema? members (.index position) with
          | some document =>
            have described := (elementSchema?_of_nextSchema? next).2
            exact behind next
              (elements all part document rfl member (parts.items document described).1)
          | none => exact whole.allows_index parts fits misses next
        | _ => contradiction

/-- A path may be read where a schema without unions describes the data, if it leads to a place of some
value that conforms to the schema, exactly if it does not stray. Its steps are written as they are: the
first is a property, names are not empty and hold neither blanks nor dots nor brackets, and positions are
counts. -/
theorem isPathAllowed_iff_not_strays {document value leaf : Json} {schema : Schema}
    {segments : List Segment} (converted : ofJson document = .ok schema) (plain : Plain document)
    (conforms : Conforms document value)
    (starts : ∃ name rest, segments = .key name :: rest)
    (clean : ∀ segment ∈ segments, segment.isClean)
    (counts : ∀ position, .index position ∈ segments → position ≤ Text.maxCount)
    (resolves : value.resolve? segments = some leaf) :
    isPathAllowed (some schema) (Path.join segments) = true ↔ ¬Strays document segments := by
  rw [isPathAllowed_of_split? (Path.split?_join (Path.tidy_of_isClean starts clean counts))]
  constructor
  · intro allowed strays
    rw [allowsSegments_of_strays strays plain converted] at allowed
    contradiction
  · exact allowsSegments_of_conforms converted plain conforms resolves

/-! A path into the elements of a property, and paths that stray: by a position where only arrays are asked
for, where further properties are refused, or whose digits are declared, and by a property where elements
are described but no type is asked for, that is written like a position, or that the elements declare. -/

/-- A schema for objects with a property `p`. -/
def declaringP (property : Json) : Json :=
  .object [("properties", .object [("p", property)]), ("type", .string "object")]

/-- The schema that it is converted to. -/
def gateOfP (property : Schema) : Schema :=
  ⟨.object, [("p", property)], none, true⟩

theorem eq_of_get?_singleton {α : Type} {key name : String} {value found : α}
    (given : Keyed.get? name [(key, value)] = some found) : name = key ∧ value = found := by
  rw [Keyed.get?] at given
  split at given
  · next same => exact ⟨same, Option.some.inj given⟩
  · contradiction

theorem ofJson_declaringP {property : Json} {schema : Schema}
    (converted : convert "#/properties/p" property = .ok schema) :
    ofJson (declaringP property) = .ok (gateOfP schema) :=
  convert_keywords rfl rfl (convertProperties_singleton converted) rfl

theorem plain_declaringP {property : Json} (plain : Plain property) : Plain (declaringP property) := by
  refine .keywords rfl rfl (fun name schema found => ?_) nofun nofun
  obtain ⟨-, rfl⟩ := @eq_of_get?_singleton _ "p" name property schema found
  exact plain

theorem conforms_declaringP {property value : Json} (conforms : Conforms property value) :
    Conforms (declaringP property) (.object [("p", value)]) := by
  refine .keywords rfl (fun fields name field schema same found given => ?_) nofun
  obtain rfl := Json.object.inj same
  obtain ⟨rfl, rfl⟩ := eq_of_get?_singleton found
  obtain rfl : property = schema := Option.some.inj given
  exact conforms

/-- A schema for arrays of anything. -/
def arraysOfAll : Json :=
  .object [("items", .bool true), ("type", .string "array")]

theorem convert_arraysOfAll (place : String) :
    convert place arraysOfAll = .ok ⟨.array, [], some ⟨.object, [], none, true⟩, false⟩ :=
  convert_keywords rfl rfl (convertProperties_nil _) (mapM_some_convert (convert_bool _ _))

theorem plain_arraysOfAll : Plain arraysOfAll := by
  refine .keywords rfl rfl nofun (fun schema found => ?_) nofun
  obtain rfl : Json.bool true = schema := Option.some.inj found
  exact .trivial

theorem conforms_arraysOfAll (items : List Json) : Conforms arraysOfAll (.array items) := by
  refine .keywords rfl nofun fun _ item schema _ _ found => ?_
  obtain rfl : Json.bool true = schema := Option.some.inj found
  exact .anything

theorem not_strays_arraysOfAll : ¬Strays (declaringP arraysOfAll) [.key "p", .index 0, .key "x"] := by
  intro strays
  cases strays with
  | here misses => cases misses <;> contradiction
  | later first strays =>
    obtain rfl : arraysOfAll = _ := Option.some.inj first
    cases strays with
    | here misses => cases misses <;> contradiction
    | later second strays =>
      obtain rfl : Json.bool true = _ := Option.some.inj second
      cases strays

theorem isPathAllowed_arraysOfAll :
    ofJson (declaringP arraysOfAll) =
        .ok (gateOfP ⟨.array, [], some ⟨.object, [], none, true⟩, false⟩) ∧
      isPathAllowed (some (gateOfP ⟨.array, [], some ⟨.object, [], none, true⟩, false⟩))
        (Path.join [.key "p", .index 0, .key "x"]) = true := by
  have converted := ofJson_declaringP (convert_arraysOfAll _)
  refine ⟨converted, (isPathAllowed_iff_not_strays converted (plain_declaringP plain_arraysOfAll)
    (conforms_declaringP (conforms_arraysOfAll [.object [("x", .null)]])) ⟨"p", _, rfl⟩ (by decide)
    (fun position member => ?_) rfl).mpr not_strays_arraysOfAll⟩
  obtain rfl : position = 0 := by simpa using member
  exact Nat.zero_le _

/-- A path leads to a place of a value that conforms to a schema, but may not be read. -/
def Refused (document value : Json) (segments : List Segment) : Prop :=
  ∃ schema leaf, ofJson document = .ok schema ∧ Plain document ∧ Conforms document value ∧
    (∃ name rest, segments = .key name :: rest) ∧ (∀ segment ∈ segments, segment.isClean) ∧
    (∀ position, .index position ∈ segments → position ≤ Text.maxCount) ∧
    value.resolve? segments = some leaf ∧
    isPathAllowed (some schema) (Path.join segments) = false

theorem refused_declaringP {property value leaf : Json} {schema : Schema} {rest : List Segment}
    (converted : convert "#/properties/p" property = .ok schema) (plain : Plain property)
    (conforms : Conforms property value)
    (written : ∀ segment ∈ rest, segment.isClean ∧ segment.isTidy)
    (resolves : value.resolve? rest = some leaf) (refused : schema.allowsSegments rest = false) :
    Refused (declaringP property) (.object [("p", value)]) (.key "p" :: rest) := by
  have clean : ∀ segment ∈ Segment.key "p" :: rest, segment.isClean :=
    List.forall_mem_cons.mpr ⟨by decide, fun segment member => (written segment member).1⟩
  have counts : ∀ position, .index position ∈ Segment.key "p" :: rest → position ≤ Text.maxCount :=
    fun position member => of_decide_eq_true (written (.index position) (by simpa using member)).2
  refine ⟨gateOfP schema, leaf, ofJson_declaringP converted, plain_declaringP plain,
    conforms_declaringP conforms, ⟨"p", rest, rfl⟩, clean, counts, ?_, ?_⟩
  · rw [Json.resolve?_cons]
    exact resolves
  · rw [isPathAllowed_of_split?
      (Path.split?_join (Path.tidy_of_isClean ⟨"p", rest, rfl⟩ clean counts))]
    exact refused

/-- A schema that refuses a property. -/
def refusing (name : String) : Json :=
  .object [("properties", .object [(name, .bool false)])]

theorem convert_refusing (place name : String) :
    convert place (refusing name) =
      .ok ⟨.object, [(name, ⟨.object, [], none, false⟩)], none, true⟩ :=
  convert_keywords rfl rfl (convertProperties_singleton (convert_bool _ _)) rfl

theorem plain_refusing (name : String) : Plain (refusing name) := by
  refine .keywords rfl rfl (fun other schema found => ?_) nofun nofun
  obtain ⟨-, rfl⟩ := @eq_of_get?_singleton _ name other (Json.bool false) schema found
  exact .trivial

/-- A schema for arrays and objects that describes elements. -/
def arrayOrObject (items : Json) : Json :=
  .object [("items", items), ("type", .array [.string "array", .string "object"])]

theorem convert_arrayOrObject {place : String} {items : Json} {elements : Schema}
    (converted : convert (place ++ "/items") items = .ok elements) :
    convert place (arrayOrObject items) = .ok ⟨.union, [], some elements, true⟩ :=
  convert_keywords rfl rfl (convertProperties_nil _) (mapM_some_convert converted)

theorem plain_arrayOrObject {items : Json} (plain : Plain items) : Plain (arrayOrObject items) := by
  refine .keywords rfl rfl nofun (fun schema found => ?_) nofun
  obtain rfl : items = schema := Option.some.inj found
  exact plain

theorem refused_bareArray :
    Refused (declaringP (.object [("type", .string "array")])) (.object [("p", .array [.null])])
      [.key "p", .index 0] :=
  refused_declaringP (convert_keywords rfl rfl (convertProperties_nil _) rfl)
    (.keywords rfl rfl nofun nofun nofun) (.keywords rfl nofun nofun) (by decide) rfl rfl

theorem refused_closedArray :
    Refused (declaringP (.object [("additionalProperties", .bool false)]))
      (.object [("p", .array [.null])]) [.key "p", .index 0] := by
  have plain : Plain (.object [("additionalProperties", .bool false)]) := by
    refine .keywords rfl rfl nofun nofun fun schema found => ?_
    obtain ⟨-, rfl⟩ := eq_of_get?_singleton found
    exact .trivial
  exact refused_declaringP (convert_keywords rfl rfl (convertProperties_nil _) rfl) plain
    (.keywords rfl nofun nofun) (by decide) rfl rfl

theorem refused_digits :
    Refused (declaringP (refusing "0")) (.object [("p", .array [.object [("x", .null)]])])
      [.key "p", .index 0, .key "x"] :=
  refused_declaringP (convert_refusing _ "0") (plain_refusing "0") (.keywords rfl nofun nofun)
    (by decide) rfl rfl

theorem refused_untyped :
    Refused (declaringP (.object [("items", .bool true)])) (.object [("p", .object [("x", .null)])])
      [.key "p", .key "x"] := by
  have plain : Plain (.object [("items", .bool true)]) := by
    refine .keywords rfl rfl nofun (fun schema found => ?_) nofun
    obtain ⟨-, rfl⟩ := eq_of_get?_singleton found
    exact .trivial
  exact refused_declaringP
    (convert_keywords rfl rfl (convertProperties_nil _) (mapM_some_convert (convert_bool _ _))) plain
    (.keywords rfl nofun nofun) (by decide) rfl rfl

theorem refused_position :
    Refused (declaringP (arrayOrObject (.bool false)))
      (.object [("p", .object [("0", .object [("x", .null)])])]) [.key "p", .key "0", .key "x"] :=
  refused_declaringP (convert_arrayOrObject (convert_bool _ _)) (plain_arrayOrObject .trivial)
    (.keywords rfl nofun nofun) (by decide) rfl rfl

theorem refused_declaredByItems :
    Refused (declaringP (arrayOrObject (refusing "x")))
      (.object [("p", .object [("x", .object [("y", .null)])])]) [.key "p", .key "x", .key "y"] :=
  refused_declaringP (convert_arrayOrObject (convert_refusing _ "x"))
    (plain_arrayOrObject (plain_refusing "x")) (.keywords rfl nofun nofun) (by decide) rfl rfl

/-- In each of the ways to stray there is a path to a place of a value that conforms to the schema which
the gate refuses. -/
theorem refused_of_strays :
    Refused (declaringP (.object [("type", .string "array")])) (.object [("p", .array [.null])])
        [.key "p", .index 0] ∧
      Refused (declaringP (.object [("additionalProperties", .bool false)]))
        (.object [("p", .array [.null])]) [.key "p", .index 0] ∧
      Refused (declaringP (refusing "0")) (.object [("p", .array [.object [("x", .null)]])])
        [.key "p", .index 0, .key "x"] ∧
      Refused (declaringP (.object [("items", .bool true)])) (.object [("p", .object [("x", .null)])])
        [.key "p", .key "x"] ∧
      Refused (declaringP (arrayOrObject (.bool false)))
        (.object [("p", .object [("0", .object [("x", .null)])])]) [.key "p", .key "0", .key "x"] ∧
      Refused (declaringP (arrayOrObject (refusing "x")))
        (.object [("p", .object [("x", .object [("y", .null)])])]) [.key "p", .key "x", .key "y"] :=
  ⟨refused_bareArray, refused_closedArray, refused_digits, refused_untyped, refused_position,
    refused_declaredByItems⟩

end MessageTemplate.Schema
