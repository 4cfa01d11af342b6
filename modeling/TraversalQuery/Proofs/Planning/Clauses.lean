import TraversalQuery.Planning.FilterClause
import TraversalQuery.Proofs.Json.Decoding
import TraversalQuery.Proofs.Runs
import TraversalQuery.Schema.Filter

/-!
# Filters that can be decoded

The types of filters and the decoder of filters describe the same values twice. A value is readable
where it could stand by the types, if it has no `null` in the place of a default. What is readable
as a filter is decoded.
-/

namespace TraversalQuery

/-- The type that is like another one but forbids `null`. -/
def TypeRef.strict : TypeRef → TypeRef
  | .nonNull inner => .nonNull inner
  | type => .nonNull type

/-- The type of an input, by which one with a default may not be `null`. -/
def InputValue.strictType (input : InputValue) : TypeRef :=
  if input.default?.isSome then input.type.strict else input.type

namespace Filter

/-- The types of filters that have fields. -/
def recordTypes : List TypeDefinition :=
  [constraintType, clauseType]

/-- The fields that a definition declares. -/
abbrev fieldsOf (definition : TypeDefinition) : List InputValue :=
  (SchemaType.ofDefinition definition).inputFields

/-- A value that can be read where a type is expected that filters are made of: a list for each
list, and `null` only where the type admits it and there is no default. -/
inductive Readable : TypeRef → Json → Prop
  | null {type : TypeRef} (nullable : type.isNonNull = false) : Readable type .null
  | nonNull {inner : TypeRef} {value : Json} (proper : value ≠ .null)
      (readable : Readable inner value) : Readable (.nonNull inner) value
  | list {item : TypeRef} {values : List Json} (each : ∀ value ∈ values, Readable item value) :
      Readable (.list item) (.array values)
  | text (value : String) : Readable (.named "String") (.string value)
  | combination {value : String} (known : value ∈ WrittenClause.combinations.map Prod.fst) :
      Readable (.named operatorType.name) (.string value)
  | record {definition : TypeDefinition} {members : Members} (member : definition ∈ recordTypes)
      (each : ∀ input ∈ fieldsOf definition, ∀ value,
        Members.get? input.name members = some value → Readable input.strictType value)
      (required : ∀ input ∈ fieldsOf definition,
        input.isRequired = true → (Members.get? input.name members).isSome = true) :
      Readable (.named definition.name) (.object members)

variable {value : Json} {members : Members}

/-- What can be read where `null` is forbidden can be read elsewhere, and is not `null`. -/
theorem Readable.of_nonNull {inner : TypeRef} (readable : Readable (.nonNull inner) value) :
    Readable inner value ∧ value ≠ .null := by
  cases readable with
  | null nullable => cases nullable
  | nonNull proper readable => exact ⟨readable, proper⟩

/-- The members of a value that is readable as a record. -/
structure Filled (declared : List InputValue) (members : Members) : Prop where
  each : ∀ input ∈ declared, ∀ value, Members.get? input.name members = some value →
    Readable input.strictType value
  required : ∀ input ∈ declared, input.isRequired = true →
    (Members.get? input.name members).isSome = true

/-- What is readable where a named type is expected is a text, a name or a record. -/
theorem Readable.cases_named {name : String} (readable : Readable (.named name) value)
    (proper : value ≠ .null) :
    (name = "String" ∧ ∃ text, value = .string text) ∨
      (name = operatorType.name ∧ ∃ text ∈ WrittenClause.combinations.map Prod.fst,
        value = .string text) ∨
      ∃ definition ∈ recordTypes, name = definition.name ∧ ∃ members, value = .object members ∧
        Filled (fieldsOf definition) members := by
  generalize isNamed : TypeRef.named name = type at readable
  cases readable with
  | null => exact absurd rfl proper
  | text text => exact .inl ⟨TypeRef.named.inj isNamed, text, rfl⟩
  | combination known => exact .inr (.inl ⟨TypeRef.named.inj isNamed, _, known, rfl⟩)
  | record member each required =>
    exact .inr (.inr ⟨_, member, TypeRef.named.inj isNamed, _, rfl, each, required⟩)
  | nonNull => cases isNamed
  | list => cases isNamed

/-- What can be read as a text is one, unless it is `null`. -/
theorem Readable.exists_text (readable : Readable (.named "String") value)
    (proper : value ≠ .null) : ∃ text, value = .string text := by
  rcases readable.cases_named proper with ⟨_, found⟩ | ⟨same, _⟩ | ⟨definition, member, same, _⟩
  · exact found
  · exact absurd same (by decide)
  · exact absurd (List.mem_map.mpr ⟨definition, member, same.symm⟩ :
      "String" ∈ recordTypes.map (·.name)) (by decide)

/-- What can be read as a combination is one of their names, unless it is `null`. -/
theorem Readable.exists_combination (readable : Readable (.named operatorType.name) value)
    (proper : value ≠ .null) :
    ∃ text ∈ WrittenClause.combinations.map Prod.fst, value = .string text := by
  rcases readable.cases_named proper with ⟨same, _⟩ | ⟨_, found⟩ | ⟨definition, member, same, _⟩
  · exact absurd same (by decide)
  · exact found
  · exact absurd (List.mem_map.mpr ⟨definition, member, same.symm⟩ :
      operatorType.name ∈ recordTypes.map (·.name)) (by decide)

/-- What can be read as a record has its fields, unless it is `null`. -/
theorem Readable.exists_members {definition : TypeDefinition} (member : definition ∈ recordTypes)
    (readable : Readable (.named definition.name) value) (proper : value ≠ .null) :
    ∃ members, value = .object members ∧
      Filled (fieldsOf definition) members := by
  rcases readable.cases_named proper with ⟨same, _⟩ | ⟨same, _⟩ | ⟨other, isOther, same, found⟩
  · exact absurd (List.mem_map.mpr ⟨definition, member, same⟩ :
      "String" ∈ recordTypes.map (·.name)) (by decide)
  · exact absurd (List.mem_map.mpr ⟨definition, member, same⟩ :
      operatorType.name ∈ recordTypes.map (·.name)) (by decide)
  · obtain rfl : definition = other :=
      List.inj_on_of_nodup_map (by decide : (recordTypes.map (·.name)).Nodup) member isOther same
    exact found

/-- What can be read as a list has items that can be read, unless it is `null`. -/
theorem Readable.exists_list {item : TypeRef} (readable : Readable (.list item) value)
    (proper : value ≠ .null) :
    ∃ values, value = .array values ∧ ∀ value ∈ values, Readable item value := by
  cases readable with
  | null => exact absurd rfl proper
  | list each => exact ⟨_, rfl, each⟩

/-- A required text is decoded. -/
theorem Readable.decode_text (readable : Readable (.nonNull (.named "String")) value) :
    ∃ text, Json.Decoder.text.decode value = .ok text := by
  obtain ⟨readable, proper⟩ := readable.of_nonNull
  obtain ⟨text, rfl⟩ := readable.exists_text proper
  exact ⟨text, rfl⟩

/-- An optional text is decoded. -/
theorem Readable.decode_optionalText (readable : Readable (.named "String") value) :
    ∃ text?, (Json.Decoder.optional .text).decode value = .ok text? := by
  by_cases isNull : value = .null
  · subst isNull
    exact ⟨none, rfl⟩
  · obtain ⟨text, rfl⟩ := readable.exists_text isNull
    exact ⟨some text, rfl⟩

/-- A required combination is decoded. -/
theorem Readable.decode_combination
    (readable : Readable (.nonNull (.named operatorType.name)) value) : ∃ quantifier,
      (Json.Decoder.choice WrittenClause.combinations).decode value = .ok quantifier := by
  obtain ⟨readable, proper⟩ := readable.of_nonNull
  obtain ⟨text, known, rfl⟩ := readable.exists_combination proper
  simp only [WrittenClause.combinations, List.map_cons, List.map_nil, List.mem_cons,
    List.not_mem_nil, or_false] at known
  rcases known with rfl | rfl
  · exact ⟨.every, rfl⟩
  · exact ⟨.any, rfl⟩

/-- A readable test is decoded. -/
theorem Readable.decode_constraint
    (readable : Readable (.nonNull (.named constraintType.name)) value) :
    ∃ test, WrittenConstraint.decoder.decode value = .ok test := by
  obtain ⟨readable, proper⟩ := readable.of_nonNull
  obtain ⟨members, rfl, filled⟩ := readable.exists_members List.mem_cons_self proper
  obtain ⟨operand, rest⟩ := List.forall_mem_cons.mp filled.each
  obtain ⟨operator, rest⟩ := List.forall_mem_cons.mp rest
  have expression := List.forall_mem_singleton.mp rest
  obtain ⟨hasOperand, rest⟩ := List.forall_mem_cons.mp filled.required
  have hasOperator := (List.forall_mem_cons.mp rest).1
  refine Json.Decoder.exists_decode_record <| Json.Fields.exists_madeOf_field
    (Json.Fields.exists_madeOf_field (Json.Fields.exists_madeOf_field ⟨_, .none _⟩
      (fun value held => (operand value held).decode_text) fun none => ?_)
      (fun value held => (operator value held).decode_text) fun none => ?_)
    (fun value held => (expression value held).decode_optionalText) fun _ => rfl
  · cases none.symm.trans (Option.eq_some_of_isSome (hasOperand rfl))
  · cases none.symm.trans (Option.eq_some_of_isSome (hasOperator rfl))

/-- **A readable filter is decoded.** -/
theorem Readable.decode_clause (readable : Readable (.named clauseType.name) value)
    (proper : value ≠ .null) : ∃ clause, WrittenClause.decoder.decode value = .ok clause := by
  obtain ⟨members, rfl, filled⟩ :=
    readable.exists_members (List.mem_cons_of_mem _ List.mem_cons_self) proper
  obtain ⟨operator, rest⟩ := List.forall_mem_cons.mp filled.each
  have constraints := List.forall_mem_singleton.mp rest
  have hasConstraints := List.forall_mem_singleton.mp (List.forall_mem_cons.mp filled.required).2
  refine Json.Decoder.exists_decode_record <| Json.Fields.exists_madeOf_field
    (Json.Fields.exists_madeOf_field ⟨_, .none _⟩
      (fun value held => (operator value held).decode_combination) fun _ => rfl)
    (fun value held => ?_) fun none => ?_
  · obtain ⟨readable, proper⟩ := Readable.of_nonNull (constraints value held)
    obtain ⟨values, rfl, each⟩ := readable.exists_list proper
    exact Json.Decoder.exists_decode_list fun value member => (each value member).decode_constraint
  · cases none.symm.trans (Option.eq_some_of_isSome (hasConstraints rfl))

end Filter

end TraversalQuery
