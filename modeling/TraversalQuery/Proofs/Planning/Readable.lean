import TraversalQuery.Proofs.Planning.Plain
import TraversalQuery.Proofs.Response.Variables
import TraversalQuery.Proofs.Schema.Filters

/-!
# Plain inputs are readable

Where a filter can be, or a part of one, plain values that fit are readable, and so is what plain
literals become that the checks admit. So filters are readable that are written in a query, provided
for variables, or made of both.
-/

namespace TraversalQuery

variable {schema : Schema} {type : TypeRef} {value : Json} {members : Members}

namespace Filter

/-- The names of the types that filters are made of. -/
def partNames : List String :=
  "String" :: operatorType.name :: recordTypes.map (·.name)

/-- A type that admits what another one does, but for `null` perhaps. -/
def Sharpens (place type : TypeRef) : Prop :=
  place = type ∨ place = type.strict

/-- What is plain where `null` is forbidden is plain elsewhere. -/
theorem isPlain_of_sharpens {clean : String → TypeRef → Bool} {literal : Literal} {place : TypeRef}
    (isValue : literal.IsValue) (sharpens : Sharpens place type)
    (plain : literal.isPlain schema clean place = true) :
    literal.isPlain schema clean type = true := by
  rcases sharpens with rfl | rfl
  · exact plain
  · rwa [← Literal.isPlain_strict isValue]

/-- What can be read and is not `null` can be read where `null` is forbidden. -/
theorem Readable.sharpen {place : TypeRef} (readable : Readable type value) (proper : value ≠ .null)
    (sharpens : Sharpens place type) : Readable place value := by
  rcases sharpens with rfl | rfl
  · exact readable
  · cases type with
    | nonNull inner => exact readable
    | _ => exact .nonNull proper readable

/-- A plain value is readable in its place if it is where `null` may stand. -/
theorem Readable.of_sharpens {place : TypeRef} (sharpens : Sharpens place type)
    (plain : value.isPlain schema place = true)
    (readable : value.isPlain schema type = true → Readable type value) : Readable place value := by
  rcases sharpens with rfl | rfl
  · exact readable plain
  · obtain ⟨proper, plain⟩ := Json.isPlain_strict_iff.mp plain
    exact (readable plain).sharpen proper (.inr rfl)

/-- What can be read where `null` is forbidden is not `null`. -/
theorem Readable.of_strict (readable : Readable type.strict value) :
    Readable type value ∧ value ≠ .null := by
  cases type with
  | nonNull inner => exact ⟨readable, readable.of_nonNull.2⟩
  | _ => exact readable.of_nonNull

/-- The strict type of an input is its type but for `null`. -/
theorem sharpens_strictType (input : InputValue) : Sharpens input.strictType input.type := by
  unfold InputValue.strictType Sharpens
  split
  · exact .inr rfl
  · exact .inl rfl

/-- A readable value can be read wherever values of its type can stand. -/
theorem Readable.of_refines {expected : TypeRef} (refines : type.Refines expected)
    (readable : Readable type value) : Readable expected value := by
  induction refines generalizing value with
  | named name => exact readable
  | list items ih =>
    cases readable with
    | null => exact .null rfl
    | list each => exact .list fun value member => ih (each value member)
  | marked inner ih =>
    obtain ⟨readable, proper⟩ := readable.of_nonNull
    exact .nonNull proper (ih readable)
  | stricter inner ih => exact ih readable.of_nonNull.1

theorem sharpens_strictAt (type place : TypeRef) : Sharpens (type.strictAt place) type := by
  unfold TypeRef.strictAt Sharpens
  split
  · exact .inr rfl
  · exact .inl rfl

/-- What is readable by the type of a variable is so wherever the variable may stand. -/
theorem Readable.of_fits {definition : VariableDefinition} {place : TypeRef}
    (fits : definition.Fits type) (sharpens : Sharpens place type)
    (readable : Readable (definition.type.strictAt place) value) : Readable place value := by
  unfold TypeRef.strictAt at readable
  by_cases isNull : value = .null
  · subst isNull
    split at readable
    · exact absurd rfl readable.of_strict.2
    · rename_i nullable
      exact .null (by simpa using nullable)
  · have readable : Readable definition.type value := by
      split at readable
      · exact readable.of_strict.1
      · exact readable
    cases fits with
    | refines refines => exact (readable.of_refines refines).sharpen isNull sharpens
    | defaulted _ _ refines =>
      exact (Readable.nonNull isNull (readable.of_refines refines)).sharpen isNull sharpens

/-- The fields of filters have types that filters are made of. -/
theorem namedType_mem_partNames : ∀ definition ∈ recordTypes,
    ∀ input ∈ fieldsOf definition, input.type.namedType ∈ partNames := by
  decide

/-- No two fields of a type of filters have one name. -/
theorem nodup_inputFields : ∀ definition ∈ recordTypes,
    ((fieldsOf definition).map (·.name)).Nodup := by
  decide

theorem ofContent_of_mem {definition : TypeDefinition} (member : definition ∈ recordTypes) :
    TypeBody.ofContent definition.content = .input (fieldsOf definition) := by
  simp only [recordTypes, List.mem_cons, List.not_mem_nil, or_false] at member
  rcases member with rfl | rfl <;> rfl

/-- Fields among which are those of a definition, and no others of their names. -/
def Declares (definition : TypeDefinition) (declared : List InputValue) : Prop :=
  ∀ input ∈ fieldsOf definition,
    input ∈ declared ∧ ∀ other ∈ declared, other.name = input.name → other = input

end Filter

namespace Schema

open TraversalQuery.Filter (partNames recordTypes operatorType clauseType fieldsOf Declares
  Readable Sharpens)

/-- What extensions may not do to the types of filters: add a way to combine tests, or a second
field of a name that is read. -/
structure PreservesFilters (schema : Schema) : Prop where
  operators : ∀ type ∈ schema.get? operatorType.name,
    ∀ value ∈ type.enumValues, value ∈ WrittenClause.combinations.map Prod.fst
  fields : ∀ definition ∈ recordTypes, ∀ input ∈ fieldsOf definition,
    ((schema.inputsOf definition.name).map (·.name)).count input.name ≤ 1

instance (schema : Schema) : Decidable schema.PreservesFilters :=
  decidable_of_iff ((∀ type ∈ schema.get? operatorType.name,
      ∀ value ∈ type.enumValues, value ∈ WrittenClause.combinations.map Prod.fst) ∧
    ∀ definition ∈ recordTypes, ∀ input ∈ fieldsOf definition,
      ((schema.inputsOf definition.name).map (·.name)).count input.name ≤ 1)
    ⟨fun both => ⟨both.1, both.2⟩, fun preserves => ⟨preserves.operators, preserves.fields⟩⟩

/-- A schema whose types describe the filters that can be read. -/
structure DescribesFilters (schema : Schema) : Prop where
  text : ∃ type, schema.get? "String" = some type ∧ type.body = .scalar
  operator : ∃ type values, schema.get? operatorType.name = some type ∧ type.body = .enum values ∧
    ∀ value ∈ values, value ∈ WrittenClause.combinations.map Prod.fst
  record : ∀ definition ∈ recordTypes, ∃ type declared, schema.get? definition.name = some type ∧
    type.body = .input declared ∧ Declares definition declared

/-- Nothing is added to fields if no second field of any of their names is. -/
theorem unique_of_count {start more : List InputValue} (distinct : (start.map (·.name)).Nodup)
    {input : InputValue} (member : input ∈ start)
    (once : ((start ++ more).map (·.name)).count input.name ≤ 1) :
    ∀ other ∈ start ++ more, other.name = input.name → other = input := by
  intro other isOther same
  have here : 0 < (start.map (·.name)).count input.name :=
    List.count_pos_iff.mpr (List.mem_map_of_mem member)
  rcases List.mem_append.mp isOther with first | later
  · exact List.inj_on_of_nodup_map distinct first member same
  · have there : 0 < (more.map (·.name)).count input.name :=
      List.count_pos_iff.mpr (same ▸ List.mem_map_of_mem later)
    rw [List.map_append, List.count_append] at once
    omega

/-- **Extensions that preserve filters** leave them described. -/
theorem describesFilters_of_preserves {sources : List String}
    (compiled : compileWithFilters sources = .ok schema) (preserves : schema.PreservesFilters) :
    schema.DescribesFilters where
  text := ⟨_, Compiled.get?_scalar ⟨_, .inr compiled⟩ (by decide), rfl⟩
  operator := by
    obtain ⟨type, found, grows⟩ := exists_filterType compiled List.mem_cons_self
    obtain ⟨more, body⟩ := grows.enum
    refine ⟨type, _, found, body, ?_⟩
    have known := preserves.operators type found
    rwa [SchemaType.enumValues, body] at known
  record definition member := by
    obtain ⟨type, found, grows⟩ := exists_filterType compiled (List.mem_cons_of_mem _ member)
    rw [Filter.ofContent_of_mem member] at grows
    obtain ⟨more, body⟩ := grows.input
    have once := preserves.fields definition member
    rw [inputsOf_of_body found body] at once
    exact ⟨type, _, found, body, fun input isField => ⟨List.mem_append_left _ isField,
      unique_of_count (Filter.nodup_inputFields definition member) isField (once input isField)⟩⟩

/-- A type that filters are made of is that of texts, of names for combining, or of records. -/
theorem DescribesFilters.cases_part (describes : schema.DescribesFilters) {name : String}
    {type : SchemaType} (isPart : name ∈ partNames) (found : schema.get? name = some type) :
    (name = "String" ∧ type.body = .scalar) ∨
      (name = operatorType.name ∧ ∃ values, type.body = .enum values ∧
        ∀ value ∈ values, value ∈ WrittenClause.combinations.map Prod.fst) ∨
      ∃ definition ∈ recordTypes, name = definition.name ∧
        ∃ declared, type.body = .input declared ∧ Declares definition declared := by
  rcases List.mem_cons.mp isPart with rfl | isPart
  · obtain ⟨other, isOther, body⟩ := describes.text
    obtain rfl := Option.some.inj (isOther.symm.trans found)
    exact .inl ⟨rfl, body⟩
  · rcases List.mem_cons.mp isPart with rfl | isPart
    · obtain ⟨other, values, isOther, body, known⟩ := describes.operator
      obtain rfl := Option.some.inj (isOther.symm.trans found)
      exact .inr (.inl ⟨rfl, values, body, known⟩)
    · obtain ⟨definition, member, rfl⟩ := List.mem_map.mp isPart
      obtain ⟨other, declared, isOther, body, fields⟩ := describes.record definition member
      obtain rfl := Option.some.inj (isOther.symm.trans found)
      exact .inr (.inr ⟨definition, member, rfl, declared, body, fields⟩)

/-- **Plain values that conform are readable** where filters are made of their type. -/
theorem readable_of_conforms (describes : schema.DescribesFilters)
    (conforms : schema.Conforms (fun _ => False) .provided type value) :
    type.namedType ∈ partNames → value.isPlain schema type = true → Readable type value := by
  generalize isProvided : InputSource.provided = source at conforms
  induction conforms with
  | provided isGiven => exact isGiven.elim
  | null nullable => exact fun _ _ => .null nullable
  | nonNull proper _ ih =>
    intro isPart plain
    rw [Json.isPlain_nonNull proper] at plain
    exact .nonNull proper (ih isProvided isPart plain)
  | list _ ih =>
    intro isPart plain
    exact .list fun part member => ih part member isProvided isPart
      (Json.arePlain_iff.mp plain part member)
  | @single item value single _ _ =>
    intro _ plain
    cases value with
    | null => exact .null rfl
    | array items => cases single
    | _ => simp [Json.isPlain, TypeRef.isList] at plain
  | @scalar _ _ _ value found isScalar kind =>
    intro isPart _
    rcases describes.cases_part isPart found with ⟨rfl, _⟩ | ⟨_, _, body, _⟩ |
      ⟨_, _, _, _, body, _⟩
    · have isText : value.text?.isSome = true := kind
      cases value with
      | string text => exact .text text
      | _ => cases isText
    · cases isScalar.symm.trans body
    · cases isScalar.symm.trans body
  | enum found isEnum member =>
    intro isPart _
    rcases describes.cases_part isPart found with ⟨_, body⟩ | ⟨rfl, _, body, known⟩ |
      ⟨_, _, _, _, body, _⟩
    · cases isEnum.symm.trans body
    · cases isEnum.symm.trans body
      exact .combination (known _ member)
    · cases isEnum.symm.trans body
  | input found isInput only each complete ih =>
    intro isPart plain
    rcases describes.cases_part isPart found with ⟨_, body⟩ | ⟨_, _, body, _⟩ |
      ⟨definition, member, rfl, _, body, fields⟩
    · cases isInput.symm.trans body
    · cases isInput.symm.trans body
    · cases isInput.symm.trans body
      simp only [Json.isPlain, TypeRef.namedType, inputsOf_of_body found isInput,
        Bool.and_eq_true] at plain
      refine .record member (fun input isField part held => ?_) fun input isField required =>
        complete input (fields input isField).1 (.inl required)
      have declared := (fields input isField).1
      exact .of_sharpens (Filter.sharpens_strictType input)
        (Json.isPlain_of_arePlainMembers plain.2 declared held)
        (ih input declared part held isProvided
          (Filter.namedType_mem_partNames definition member input isField))

/-- A value that is readable at a place, or none where a type admits `null`. -/
def ReadableOr (place type : TypeRef) : Option Json → Prop
  | some value => Readable place value
  | none => type.isNonNull = false

/-- What is written for the fields of a record, and their defaults, make a readable record. -/
theorem readable_of_fields {definition : TypeDefinition} (member : definition ∈ recordTypes)
    {declared : List InputValue} (declares : Declares definition declared)
    {default : Input.Default} {values : Members} {fields : List (String × Literal)}
    (written : ∀ input ∈ fieldsOf definition, ∀ literal,
      Literal.fieldValue? input.name fields = some literal → ReadableOr input.strictType input.type
        (Input.ofLiteral schema values default literal input.type))
    (required : ∀ input ∈ fieldsOf definition,
      input.isRequired = true → (Literal.fieldValue? input.name fields).isSome = true)
    (defaulted : ∀ input ∈ fieldsOf definition, ∀ value,
      default input = some value → Readable input.strictType value) :
    Readable (.named definition.name) (.object (Input.declaredMembers default
      (fun name type => Input.lookup name type (Input.ofFields schema values default fields))
      declared [])) := by
  refine .record member (fun input isField value held => ?_) fun input isField due => ?_
  · rcases Input.of_get?_declaredMembers held with ⟨other, isOther, same, isValue⟩ | before
    · obtain rfl := (declares input isField).2 other isOther same
      rw [Input.lookup_ofFields] at isValue
      rcases Option.or_eq_some_iff.mp isValue with given | ⟨_, isDefault⟩
      · obtain ⟨literal, isLiteral, found⟩ := Option.bind_eq_some_iff.mp given
        have readable := written other isField literal isLiteral
        rwa [found] at readable
      · exact defaulted other isField value isDefault
    · cases before
  · refine Input.isSome_declaredMembers (declares input isField).1 ?_
    obtain ⟨literal, isLiteral⟩ := Option.isSome_iff_exists.mp (required input isField due)
    have readable := written input isField literal isLiteral
    rw [Input.lookup_ofFields, isLiteral, Option.bind_some]
    cases found : Input.ofLiteral schema values default literal input.type with
    | some value => rfl
    | none =>
      rw [found] at readable
      rw [InputValue.isRequired, show input.type.isNonNull = false from readable,
        Bool.false_and] at due
      cases due

/-- **Plain literals become readable values** where filters are made of their type, if the defaults
of the fields of filters do, and the variables in their places. -/
theorem readable_ofLiteral {scope : Typing.Scope} (describes : scope.schema.DescribesFilters)
    {default : Input.Default} {values : Members} {clean : String → TypeRef → Bool}
    (defaulted : ∀ definition ∈ recordTypes, ∀ input ∈ fieldsOf definition, ∀ value,
      default input = some value → Readable input.strictType value)
    (referred : ∀ name definition type place,
      scope.variableDefinitions.find? (·.name == name) = some definition →
        definition.Fits type → type.namedType ∈ partNames → Sharpens place type →
          clean name place = true → ReadableOr place type (Members.get? name values))
    {literal : Literal} (admitted : scope.Admits type literal) :
    type.namedType ∈ partNames → ∀ place, Sharpens place type →
      literal.isPlain scope.schema clean place = true →
        ReadableOr place type (Input.ofLiteral scope.schema values default literal type) ∧
          (literal.IsValue →
            Input.ofLiteral scope.schema values default literal type ≠ some .null) := by
  -- What is no variable and not `null` becomes a value that may stand at every place.
  have settle {type place : TypeRef} {literal : Literal} {value : Json}
      (sharpens : Sharpens place type)
      (found : Input.ofLiteral scope.schema values default literal type = some value)
      (readable : Readable type value) (proper : value ≠ .null) :
      ReadableOr place type (Input.ofLiteral scope.schema values default literal type) ∧
        (literal.IsValue →
          Input.ofLiteral scope.schema values default literal type ≠ some .null) := by
    rw [found]
    exact ⟨readable.sharpen proper sharpens, fun _ same => proper (Option.some.inj same)⟩
  induction admitted with
  | reference declared fits =>
    intro isPart place sharpens plain
    exact ⟨referred _ _ _ place declared fits isPart sharpens plain, False.elim⟩
  | null nullable =>
    intro _ place _ plain
    exact ⟨.null (by simpa [Literal.isPlain] using plain), False.elim⟩
  | @nonNull inner literal isValue _ ih =>
    intro isPart place sharpens plain
    have plain := Filter.isPlain_of_sharpens isValue sharpens plain
    rw [Literal.isPlain_nonNull isValue] at plain
    obtain ⟨readable, proper⟩ := ih isPart inner (.inl rfl) plain
    obtain ⟨value, found⟩ := Input.exists_value_of_isValue isValue
    rw [found] at readable proper
    have proper : value ≠ .null := fun same => proper isValue (congrArg some same)
    exact settle sharpens (Input.ofLiteral_nonNull.trans found) (.nonNull proper readable) proper
  | @list item items each ih =>
    intro isPart place sharpens plain
    have plain := Filter.isPlain_of_sharpens (by trivial) sharpens plain
    refine settle sharpens rfl (.list fun part member => ?_) (Json.ne_null_of_isNull rfl)
    rw [Input.ofItems_eq_map] at member
    obtain ⟨literal, isItem, rfl⟩ := List.mem_map.mp member
    have settled := (ih literal isItem isPart item (.inl rfl)
      (Literal.arePlain_iff.mp plain literal isItem)).1
    change Readable item ((Input.ofLiteral scope.schema values default literal item).getD .null)
    cases found : Input.ofLiteral scope.schema values default literal item with
    | some value => rwa [found] at settled
    | none =>
      rw [found] at settled
      exact .null settled
  | @single item literal isValue isSingle admitted ih =>
    intro isPart place sharpens plain
    have plain := Filter.isPlain_of_sharpens isValue sharpens plain
    obtain ⟨readable, proper⟩ := ih isPart item (.inl rfl)
      (by rwa [← Literal.isPlain_single isValue isSingle])
    obtain ⟨value, found⟩ := Input.exists_value_of_isValue isValue
    rw [found] at readable
    refine settle sharpens ((Input.ofLiteral_single isValue isSingle).trans (by rw [found]; rfl))
      (.list (List.forall_mem_singleton.mpr readable)) (Json.ne_null_of_isNull rfl)
  | @scalar name type literal isValue isType isScalar accepted =>
    intro isPart place sharpens plain
    rcases describes.cases_part isPart isType with ⟨rfl, _⟩ | ⟨_, _, body, _⟩ |
      ⟨_, _, _, _, body, _⟩
    · cases literal with
      | string text => exact settle sharpens rfl (.text text) (Json.ne_null_of_isNull rfl)
      | reference name => exact isValue.elim
      | null => exact isValue.elim
      | _ => cases accepted
    · cases isScalar.symm.trans body
    · cases isScalar.symm.trans body
  | @enumValue name value type values isType isEnum member =>
    intro isPart place sharpens plain
    rcases describes.cases_part isPart isType with ⟨_, body⟩ | ⟨rfl, _, body, known⟩ |
      ⟨_, _, _, _, body, _⟩
    · cases isEnum.symm.trans body
    · cases isEnum.symm.trans body
      exact settle sharpens rfl (.combination (known _ member)) (Json.ne_null_of_isNull rfl)
    · cases isEnum.symm.trans body
  | @object name type declared fields isType isInput distinct known each required ih =>
    intro isPart place sharpens plain
    rcases describes.cases_part isPart isType with ⟨_, body⟩ | ⟨_, _, body, _⟩ |
      ⟨definition, member, rfl, _, body, declares⟩
    · cases isInput.symm.trans body
    · cases isInput.symm.trans body
    · cases isInput.symm.trans body
      have plain := Filter.isPlain_of_sharpens (by trivial) sharpens plain
      rw [Literal.isPlain, TypeRef.namedType, inputsOf_of_body isType isInput] at plain
      have sameFields : ((scope.schema.get? (TypeRef.named definition.name).namedType).map
          (·.inputFields)).getD [] = declared := inputsOf_of_body isType isInput
      refine settle sharpens rfl ?_ (Json.ne_null_of_isNull rfl)
      rw [sameFields]
      refine readable_of_fields member declares (fun input isField literal isLiteral => ?_)
        (fun input isField due => ?_) (defaulted definition member)
      · have isWritten := Literal.mem_of_fieldValue? isLiteral
        obtain ⟨other, found⟩ := Option.isSome_iff_exists.mp (known _ isWritten)
        obtain rfl := (declares input isField).2 other (List.mem_of_find?_eq_some found)
          (by simpa using List.find?_some found)
        exact (ih _ isWritten other found
          (Filter.namedType_mem_partNames definition member other isField) _
          (Filter.sharpens_strictType other)
          (Literal.isPlain_of_arePlainFields plain (declares other isField).1 isWritten)).1
      · exact Literal.isSome_fieldValue?.mpr (required input (declares input isField).1 due)

/-- Whatever defaults lead to, those of the fields of filters are readable. -/
theorem readable_defaultOf {values : Members} {rounds : Nat} : ∀ definition ∈ recordTypes,
    ∀ input ∈ fieldsOf definition, ∀ value,
      Input.defaultOf schema values rounds input = some value →
        Readable input.strictType value := by
  intro definition member input isField value isDefault
  cases rounds with
  | zero => cases isDefault
  | succ rounds =>
    simp only [recordTypes, List.mem_cons, List.not_mem_nil, or_false] at member
    rcases member with rfl | rfl
    · change input ∈ [_, _, _] at isField
      simp only [List.mem_cons, List.not_mem_nil, or_false] at isField
      rcases isField with rfl | rfl | rfl <;> cases isDefault
    · change input ∈ [_, _] at isField
      simp only [List.mem_cons, List.not_mem_nil, or_false] at isField
      rcases isField with rfl | rfl
      · obtain rfl := Option.some.inj isDefault
        exact .nonNull nofun (.combination (by decide))
      · cases isDefault

variable {scope : Typing.Scope} {provided values : Members} {definition : VariableDefinition}

/-- The value of a plain variable is readable, or it has none and none is needed. -/
theorem readableOr_variableValue (describes : scope.schema.DescribesFilters)
    (defaults : ∀ literal ∈ definition.default?, scope.Admits definition.type literal)
    {value? : Option Json}
    (made : Input.variableValue scope.schema provided definition = .ok value?) {place : TypeRef}
    (fits : definition.Fits type) (isPart : type.namedType ∈ partNames)
    (sharpens : Sharpens place type)
    (plain : definition.isPlainAt scope.schema provided place = true) :
    ReadableOr place type value? := by
  rw [← fits.namedType_eq] at isPart
  unfold Input.variableValue at made
  unfold VariableDefinition.isPlainAt at plain
  dsimp only at made plain
  split at made
  · rename_i value given
    rw [given] at plain
    split at made
    · rename_i held
      obtain rfl := Except.ok.inj made
      refine Readable.of_fits fits sharpens (.of_sharpens (Filter.sharpens_strictAt _ _) plain ?_)
      exact readable_of_conforms describes (conforms_of_fits value definition.type held) isPart
    · cases made
  · rename_i notGiven
    rw [notGiven] at plain
    split at made
    · rename_i literal isDefault
      rw [isDefault] at plain
      obtain rfl := Except.ok.inj made
      change literal.isPlain scope.schema (fun _ _ => false) _ = true at plain
      have settled : ReadableOr _ definition.type
          (Input.coerce scope.schema [] literal definition.type) :=
        (readable_ofLiteral describes readable_defaultOf
          (fun _ _ _ _ _ _ _ _ refused => absurd refused Bool.false_ne_true)
          (defaults literal isDefault) isPart _ (Filter.sharpens_strictAt _ place) plain).1
      cases found : Input.coerce scope.schema [] literal definition.type with
      | some value =>
        rw [found] at settled
        exact Readable.of_fits fits sharpens settled
      | none =>
        have isReference := Input.isReference_of_ofLiteral_eq_none found
        cases literal with
        | reference name => cases plain
        | _ => cases isReference
    · rename_i noDefault
      split at made
      · cases made
      · rename_i nullable
        obtain rfl := Except.ok.inj made
        cases fits with
        | refines refines => exact refines.isNonNull (by simpa using nullable)
        | defaulted defaults =>
          rw [noDefault] at defaults
          cases defaults

/-- **Plain variables are readable where they may stand.** -/
theorem readableOr_variable (describes : scope.schema.DescribesFilters)
    (admits : scope.AdmitsVariables scope.variableDefinitions)
    (accepted : Input.operationValues scope.schema scope.variableDefinitions provided = .ok values)
    {name : String} (declared : scope.variableDefinitions.find? (·.name == name) = some definition)
    {place : TypeRef} (fits : definition.Fits type) (isPart : type.namedType ∈ partNames)
    (sharpens : Sharpens place type) (plain : VariableDefinition.arePlainAt scope.schema provided
      scope.variableDefinitions name place = true) :
    ReadableOr place type (Members.get? name values) := by
  have member := List.mem_of_find?_eq_some declared
  obtain rfl : definition.name = name := by simpa using List.find?_some declared
  rw [VariableDefinition.arePlainAt, declared] at plain
  exact readableOr_variableValue describes (admits.defaults definition member)
    (Input.get?_variableValues admits.distinct member
      (Input.variableValues_of_operationValues accepted) rfl) fits isPart sharpens plain

/-- An argument that takes a filter. If the filter is the default, then the checks would have
admitted the default, and it is plain. -/
structure TakesFilter (schema : Schema) (values : Members) (filter : Json) (input : InputValue) :
    Prop where
  isClause : input.type.nullable = .named clauseType.name
  admitted : Input.default schema values input = some filter → ∀ literal ∈ input.default?,
    Typing.Scope.Admits ⟨schema, [], []⟩ input.type literal
  plain : Input.default schema values input = some filter → ∀ literal ∈ input.default?,
    literal.isPlain schema (fun _ _ => false) (.named clauseType.name) = true

/-- What a plain literal becomes for a filter is readable. -/
theorem readable_of_ofLiteral (scope : Typing.Scope) (describes : scope.schema.DescribesFilters)
    {clean : String → TypeRef → Bool} (referred : ∀ name definition type place,
      scope.variableDefinitions.find? (·.name == name) = some definition →
        definition.Fits type → type.namedType ∈ partNames → Sharpens place type →
          clean name place = true → ReadableOr place type (Members.get? name values))
    (isClause : type.nullable = .named clauseType.name) {literal : Literal}
    (admitted : scope.Admits type.nullable literal)
    (plain : literal.isPlain scope.schema clean (.named clauseType.name) = true) {rounds : Nat}
    (found : Input.ofLiteral scope.schema values (Input.defaultOf scope.schema values rounds)
      literal type = some value) : Readable (.named clauseType.name) value := by
  rw [← Input.ofLiteral_nullable] at found
  rw [isClause] at admitted found
  have settled : ReadableOr (.named clauseType.name) (.named clauseType.name) (some value) := by
    rw [← found]
    exact (readable_ofLiteral describes readable_defaultOf referred admitted (by decide) _
      (.inl rfl) plain).1
  exact settled

/-- **Filters are readable.** What a field gets for its filter is readable if it is declared where
the query writes it and where the field takes it, and if what is written is plain. -/
theorem readable_argument (describes : scope.schema.DescribesFilters)
    (admits : scope.AdmitsVariables scope.variableDefinitions)
    (accepted : Input.operationValues scope.schema scope.variableDefinitions provided = .ok values)
    {field : Field} (written : ∀ literal ∈ field.argument? FilterClause.argumentName,
      scope.Admits (.named clauseType.name) literal ∧
        literal.isPlain scope.schema (VariableDefinition.arePlainAt scope.schema provided
          scope.variableDefinitions) (.named clauseType.name) = true)
    {declared : List InputValue} {filter : Json}
    (takes : ∀ input ∈ declared, input.name = FilterClause.argumentName →
      scope.schema.TakesFilter values filter input)
    (held : Members.get? FilterClause.argumentName
      (Input.arguments scope.schema values declared field) = some filter) :
    Readable (.named clauseType.name) filter := by
  rcases Input.of_get?_declaredMembers held with ⟨input, member, named, isFilter⟩ | before
  · have takes := takes input member named
    rcases Option.or_eq_some_iff.mp isFilter with given | ⟨_, isDefault⟩
    · obtain ⟨literal, isLiteral, found⟩ := Option.bind_eq_some_iff.mp given
      rw [named] at isLiteral
      obtain ⟨admitted, plain⟩ := written literal isLiteral
      rw [← takes.isClause] at admitted
      exact readable_of_ofLiteral scope describes
        (fun _ _ _ _ isDefined => readableOr_variable describes admits accepted isDefined)
        takes.isClause admitted plain found
    · cases isLiteral : input.default? with
      | none =>
        rw [Input.default, Input.defaultRounds, Input.defaultOf_succ, isLiteral] at isDefault
        cases isDefault
      | some literal =>
        have admitted := (takes.admitted isDefault literal isLiteral).of_nullable
        have plain := takes.plain isDefault literal isLiteral
        rw [Input.default, Input.defaultRounds, Input.defaultOf_succ, isLiteral] at isDefault
        exact readable_of_ofLiteral ⟨scope.schema, [], []⟩ describes (fun _ _ _ _ => nofun)
          takes.isClause admitted plain isDefault
  · cases before

end Schema

end TraversalQuery
