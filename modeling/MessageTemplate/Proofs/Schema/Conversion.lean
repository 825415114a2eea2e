import MessageTemplate.Schema.Strays

/-! # Schemas converted from documents

A schema document without unions is converted keyword by keyword (`convert_object`): its kind is given by
the types that it asks for, or by the other keywords where it asks for none, and each declared property
and the elements are converted from the documents that describe them (`ConvertedFrom`). A union is
converted alternative by alternative (`convert_union`). The place at which a document stands does not
matter (`convert_anywhere`). -/

namespace MessageTemplate.Schema

/-! ## Kinds -/

theorem exists_of_bind_eq_ok {ε α β : Type} {first : Except ε α} {next : α → Except ε β} {result : β}
    (ok : (first >>= next) = .ok result) : ∃ value, first = .ok value ∧ next value = .ok result := by
  cases first with
  | error cause => contradiction
  | ok value => exact ⟨value, rfl, ok⟩

/-- The kind that is given by the types a schema asks for, or by its other keywords. -/
inductive KindGiven (members : Keyed Json) (kind : SchemaKind) : Prop where
  | single {name : String} :
      typesOf? members = some [name] → SchemaKind.ofName name = .ok kind → KindGiven members kind
  | nothing : typesOf? members = some [] → kind = .null → KindGiven members kind
  | several {names : List String} :
      typesOf? members = some names → 2 ≤ names.length → kind = .union → KindGiven members kind
  | untyped : typesOf? members = none →
      kind = (if Keyed.has "properties" members then .object
        else if Keyed.has "items" members then .array else .union) → KindGiven members kind

theorem kindGiven_of_kindOf {place : String} {members : Keyed Json} {kind : SchemaKind}
    (given : kindOf place members = .ok kind) : KindGiven members kind := by
  unfold kindOf at given
  split at given
  · next name type => exact .single (by rw [typesOf?, type]) given
  · next names type =>
    have types : typesOf? members = some (typeNames names) := by rw [typesOf?, type]
    obtain ⟨kinds, converted, given⟩ := exists_of_bind_eq_ok given
    generalize typeNames names = asked at types converted
    cases asked with
    | nil =>
      obtain rfl := Except.ok.inj converted
      exact .nothing types (Except.ok.inj given).symm
    | cons name rest =>
      rw [List.mapM_cons] at converted
      obtain ⟨first, named, converted⟩ := exists_of_bind_eq_ok converted
      obtain ⟨others, more, converted⟩ := exists_of_bind_eq_ok converted
      obtain rfl := Except.ok.inj converted
      cases rest with
      | nil =>
        obtain rfl := Except.ok.inj more
        obtain rfl := Except.ok.inj given
        exact .single types named
      | cons second rest =>
        rw [List.mapM_cons] at more
        obtain ⟨next, -, more⟩ := exists_of_bind_eq_ok more
        obtain ⟨last, -, more⟩ := exists_of_bind_eq_ok more
        obtain rfl := Except.ok.inj more
        exact .several types (Nat.le_add_left 2 _) (Except.ok.inj given).symm
  · contradiction
  · next type =>
    refine .untyped (by rw [typesOf?, type]) ?_
    have same (one other : SchemaKind) (condition : Bool) :
        (if condition then Except.ok one else Except.ok other : Except SchemaError SchemaKind) =
          .ok (if condition then one else other) := by cases condition <;> rfl
    rw [same, same] at given
    exact (Except.ok.inj given).symm

/-- A part of a schema document, if there is one, is converted to a part of the schema. -/
inductive Converts : Option Json → Option Schema → Prop where
  | absent : Converts none none
  | present {place : String} {document : Json} {schema : Schema} :
      convert place document = .ok schema → Converts (some document) (some schema)

theorem Converts.of_none {target : Option Schema} (converts : Converts none target) :
    target = none := by
  cases converts
  rfl

theorem Converts.of_some {document : Json} {target : Option Schema}
    (converts : Converts (some document) target) :
    ∃ place schema, convert place document = .ok schema ∧ target = some schema := by
  cases converts with
  | present converted => exact ⟨_, _, converted, rfl⟩

/-- The declared properties are converted one by one. -/
theorem converts_property {place : String} {declared : List (String × Json)}
    {properties : Keyed Schema} (converted : convertProperties place declared = .ok properties)
    (name : String) : Converts (Keyed.get? name declared) (Keyed.get? name properties) := by
  induction declared generalizing properties with
  | nil =>
    rw [convertProperties] at converted
    obtain rfl := Except.ok.inj converted
    exact .absent
  | cons entry rest ih =>
    obtain ⟨other, property⟩ := entry
    rw [convertProperties] at converted
    obtain ⟨schema, first, converted⟩ := exists_of_bind_eq_ok converted
    obtain ⟨others, more, converted⟩ := exists_of_bind_eq_ok converted
    obtain rfl := Except.ok.inj converted
    by_cases same : name = other
    · simp only [Keyed.get?, if_pos same]
      exact .present first
    · simp only [Keyed.get?, if_neg same]
      exact ih more

/-! ## Keywords -/

/-- What the keywords of a schema document without unions are converted to. -/
structure ConvertedFrom (members : Keyed Json) (schema : Schema) : Prop where
  kind : KindGiven members schema.kind
  property : ∀ name,
    Converts (Keyed.get? name (declaredProperties members)) (schema.property? name)
  items : Converts (Keyed.get? "items" members) schema.items
  additional : schema.additional = admitsAdditional schema.kind members

theorem convert_bool (place : String) (admits : Bool) :
    convert place (.bool admits) = .ok ⟨.object, [], none, admits⟩ := by
  rw [convert]

theorem convertProperties_nil (place : String) : convertProperties place [] = .ok [] := by
  rw [convertProperties]

/-- Without unions each keyword is converted by itself. -/
theorem convert_object {members : List (String × Json)} (united : variants? members = none)
    (place : String) :
    convert place (.object members) = (do
      let kind ← kindOf place members
      let properties ← convertProperties place (declaredProperties members)
      let items ← (Keyed.get? "items" members).mapM (convert (place ++ "/items"))
      return ⟨kind, properties, items, admitsAdditional kind members⟩) := by
  rw [convert]
  split
  · next some => rw [united] at some; contradiction
  refine bind_congr fun kind => ?_
  congr 1
  · unfold declaredProperties
    split
    · next found => rw [found]; rfl
    · next other =>
      rw [← convertProperties_nil place]
      congr 1
      cases found : Keyed.get? "properties" members with
      | none => rfl
      | some value =>
        cases value with
        | object all => exact absurd found (other all)
        | _ => rfl
  funext properties
  congr 1
  · split
    · next found =>
      rw [found, Option.mapM_some]
      cases convert (place ++ "/items") _ <;> rfl
    · next found => rw [found]; rfl

/-- A union is converted alternative by alternative. -/
theorem convert_union {members : List (String × Json)} {alternatives : List Json}
    (united : variants? members = some alternatives) (place : String) :
    convert place (.object members) = (convertVariants place 0 alternatives).map union := by
  rw [convert]
  split
  · next found =>
    rw [united] at found
    cases found
    rfl
  · next absent => rw [united] at absent; contradiction

theorem convertProperties_singleton {place name : String} {property : Json} {schema : Schema}
    (converted : convert (place ++ "/properties/" ++ name) property = .ok schema) :
    convertProperties place [(name, property)] = .ok [(name, schema)] := by
  rw [convertProperties, converted, convertProperties_nil]
  rfl

theorem convert_keywords {place : String} {members : List (String × Json)} {kind : SchemaKind}
    {properties : Keyed Schema} {items : Option Schema} (united : variants? members = none)
    (given : kindOf place members = .ok kind)
    (declared : convertProperties place (declaredProperties members) = .ok properties)
    (elements : (Keyed.get? "items" members).mapM (convert (place ++ "/items")) = .ok items) :
    convert place (.object members) =
      .ok ⟨kind, properties, items, admitsAdditional kind members⟩ := by
  rw [convert_object united, given, declared, elements]
  rfl

theorem convertedFrom_of_convert {place : String} {members : List (String × Json)} {schema : Schema}
    (united : variants? members = none)
    (converted : convert place (.object members) = .ok schema) : ConvertedFrom members schema := by
  rw [convert_object united] at converted
  obtain ⟨kind, given, converted⟩ := exists_of_bind_eq_ok converted
  obtain ⟨properties, declared, converted⟩ := exists_of_bind_eq_ok converted
  obtain ⟨items, elements, converted⟩ := exists_of_bind_eq_ok converted
  obtain rfl := Except.ok.inj converted
  refine ⟨kindGiven_of_kindOf given, converts_property declared, ?_, rfl⟩
  cases found : Keyed.get? "items" members with
  | none =>
    rw [found] at elements
    obtain rfl := Except.ok.inj elements
    exact .absent
  | some document =>
    rw [found, Option.mapM_some] at elements
    obtain ⟨schema, below, elements⟩ := exists_of_bind_eq_ok elements
    obtain rfl := Except.ok.inj elements
    exact .present below

/-! ## Places

The place of a document is only named in errors: what is converted at one place is converted alike at
any other. -/

theorem sizeOf_declaredProperties_lt (members : List (String × Json)) :
    sizeOf (declaredProperties members) < sizeOf (Json.object members) := by
  have nonzero : 0 < sizeOf members := by
    cases members with
    | nil => decide
    | cons entry rest =>
      rw [List.cons.sizeOf_spec]
      omega
  have empty : sizeOf ([] : List (String × Json)) < sizeOf (Json.object members) := by
    rw [Json.object.sizeOf_spec, List.nil.sizeOf_spec]
    omega
  rw [declaredProperties]
  cases found : Keyed.get? "properties" members with
  | none => exact empty
  | some value =>
    have smaller := sizeOf_lt_of_get? found
    cases value with
    | object declared =>
      rw [Json.object.sizeOf_spec] at smaller ⊢
      change sizeOf declared < _
      omega
    | _ => exact empty

theorem kindOf_anywhere {place : String} {members : Keyed Json} {kind : SchemaKind}
    (given : kindOf place members = .ok kind) (other : String) : kindOf other members = .ok kind := by
  unfold kindOf at given ⊢
  split at given
  · exact given
  · exact given
  · contradiction
  · exact given

mutual

theorem convert_anywhere {place : String} {document : Json} {schema : Schema}
    (converted : convert place document = .ok schema) (other : String) :
    convert other document = .ok schema := by
  match document with
  | .bool admits => rw [convert] at converted ⊢; exact converted
  | .object members =>
    cases united : variants? members with
    | some alternatives =>
      rw [convert_union united] at converted ⊢
      cases each : convertVariants place 0 alternatives with
      | error => rw [each] at converted; contradiction
      | ok schemas =>
        rw [each] at converted
        have := sizeOf_lt_of_variants? united
        rw [convertVariants_anywhere each other 0]
        exact converted
    | none =>
      rw [convert_object united] at converted ⊢
      obtain ⟨kind, given, converted⟩ := exists_of_bind_eq_ok converted
      obtain ⟨properties, declared, converted⟩ := exists_of_bind_eq_ok converted
      obtain ⟨items, elements, converted⟩ := exists_of_bind_eq_ok converted
      have := sizeOf_declaredProperties_lt members
      rw [kindOf_anywhere given other, convertProperties_anywhere declared other]
      cases found : Keyed.get? "items" members with
      | none =>
        rw [found] at elements
        cases elements
        exact converted
      | some document =>
        rw [found, Option.mapM_some] at elements
        obtain ⟨below, inner, elements⟩ := exists_of_bind_eq_ok elements
        have := sizeOf_lt_of_get? found
        rw [Option.mapM_some, convert_anywhere inner (other ++ "/items")]
        cases elements
        exact converted
  | .null | .number _ | .string _ | .array _ => simp [convert] at converted
termination_by sizeOf document
decreasing_by
  all_goals
    simp only [Json.object.sizeOf_spec] at *
    omega

theorem convertVariants_anywhere {place : String} {number : Nat} {documents : List Json}
    {schemas : List Schema} (converted : convertVariants place number documents = .ok schemas)
    (other : String) (start : Nat) : convertVariants other start documents = .ok schemas := by
  match documents with
  | [] => rw [convertVariants] at converted ⊢; exact converted
  | document :: rest =>
    rw [convertVariants] at converted ⊢
    obtain ⟨first, here, converted⟩ := exists_of_bind_eq_ok converted
    obtain ⟨others, behind, converted⟩ := exists_of_bind_eq_ok converted
    rw [convert_anywhere here, convertVariants_anywhere behind other]
    exact converted
termination_by sizeOf documents

theorem convertProperties_anywhere {place : String} {declared : List (String × Json)}
    {properties : Keyed Schema} (converted : convertProperties place declared = .ok properties)
    (other : String) : convertProperties other declared = .ok properties := by
  match declared with
  | [] => rw [convertProperties] at converted ⊢; exact converted
  | (name, property) :: rest =>
    rw [convertProperties] at converted ⊢
    obtain ⟨schema, here, converted⟩ := exists_of_bind_eq_ok converted
    obtain ⟨others, behind, converted⟩ := exists_of_bind_eq_ok converted
    rw [convert_anywhere here, convertProperties_anywhere behind other]
    exact converted
termination_by sizeOf declared

end

/-! ## Documents of one keyword and another -/

theorem mapM_some_convert {place : String} {items : Json} {schema : Schema}
    (converted : convert place items = .ok schema) :
    (some items).mapM (convert place) = .ok (some schema) := by
  rw [Option.mapM_some, converted]
  rfl

/-- A schema for arrays, with a schema for their elements. -/
def arraysOf (items : Json) : Json :=
  .object [("items", items), ("type", .string "array")]

theorem convert_arraysOf {place : String} {items : Json} {elements : Schema}
    (converted : convert (place ++ "/items") items = .ok elements) :
    convert place (arraysOf items) = .ok ⟨.array, [], some elements, false⟩ :=
  convert_keywords rfl rfl (convertProperties_nil _) (mapM_some_convert converted)

/-- A schema for objects with one property, of any value, and no other. -/
def closedWith (name : String) : Json :=
  .object [("additionalProperties", .bool false), ("properties", .object [(name, .bool true)])]

theorem convert_closedWith (place name : String) :
    convert place (closedWith name) =
      .ok ⟨.object, [(name, ⟨.object, [], none, true⟩)], none, false⟩ :=
  convert_keywords rfl rfl (convertProperties_singleton (convert_bool _ _)) rfl

end MessageTemplate.Schema
