import TraversalQuery.Proofs.Response.Settling

/-!
# The values of defaults

A default can leave out fields that take defaults of their own. Where no chain of defaults returns
and each of them is accepted where it stands, every default has a value that conforms.
-/

namespace TraversalQuery

namespace Schema

variable {schema : Schema} {given : Json → Prop}

/-- The types of the fields of inputs are there. -/
theorem resolved_inputFields (compiled : schema.Compiled) : ∀ type ∈ schema.types,
    ∀ input ∈ type.inputFields, (schema.get? input.type.namedType).isSome = true :=
  fun _ isType => compiled.isSome_input _ (inputFields_mem_inputLists isType)

/-- The fields of an input have distinct names. -/
theorem SoundInputs.distinct_inputFields (sound : schema.SoundInputs) :
    ∀ type ∈ schema.types, (type.inputFields.map (·.name)).Nodup :=
  fun _ isType => sound.distinct _ (inputFields_mem_inputLists isType)

/-- A literal that is accepted without any variables has a value that conforms. -/
theorem exists_ofLiteral (compiled : schema.Compiled) (sound : schema.SoundInputs)
    {values : Members} {default : Input.Default} {literal : Literal} {type : TypeRef}
    {path : String} (accepted : Typing.literalProblems ⟨schema, [], []⟩ type path literal = [])
    (finite : literal.isFinite = true) (isType : (schema.get? type.namedType).isSome = true)
    (defaults : ∀ input ∈ schema.omitted type literal,
      schema.ConformsOr given input.type (input.default? = none) (default input)) :
    ∃ value, Input.ofLiteral schema values default literal type = some value ∧
      schema.Conforms given .written type value := by
  have conforms := Input.conformsOr_ofLiteral ⟨schema, [], []⟩ values
    (resolved_inputFields compiled) sound.distinct_inputFields (fun _ _ _ => nofun) literal finite
    type path accepted isType defaults
  cases found : Input.ofLiteral schema values default literal type with
  | some value =>
    rw [found] at conforms
    exact ⟨value, rfl, conforms⟩
  | none =>
    cases literal with
    | reference name => cases accepted
    | _ => cases found

/-- **Every default conforms**, where inputs are declared in order. -/
theorem SoundInputs.default (sound : schema.SoundInputs) (compiled : schema.Compiled)
    (values : Members) {declared : List InputValue} (isList : declared ∈ schema.inputLists)
    {input : InputValue} (member : input ∈ declared) :
    schema.ConformsOr given input.type (input.default? = none)
      (Input.default schema values input) := by
  refine holds_of_rounds (motive := fun rounds input => ∀ declared ∈ schema.inputLists,
    input ∈ declared → schema.ConformsOr given input.type (input.default? = none)
      (Input.defaultOf schema values rounds input)) Leads.mem_inputFields sound.ends ?_ input
      declared isList member
  intro rounds input ih declared isList member
  rw [Input.defaultOf_succ]
  cases isDefault : input.default? with
  | none => rfl
  | some literal =>
    have defaults : ∀ other ∈ schema.omitted input.type literal,
        schema.ConformsOr given other.type (other.default? = none)
          (Input.defaultOf schema values rounds other) := by
      intro other left
      obtain ⟨type, isType, isOwn⟩ :=
        List.mem_flatMap.mp (mem_inputFields_of_mem_omitted literal left)
      exact ih other ⟨literal, isDefault, left⟩ _ (inputFields_mem_inputLists isType) isOwn
    obtain ⟨value, found, conforms⟩ := exists_ofLiteral compiled sound
      (sound.accepted _ isList _ member _ isDefault) (sound.finite _ isList _ member _ isDefault)
      (compiled.isSome_input _ isList _ member) defaults
    rw [Option.bind_some, found]
    exact conforms

/-- What is omitted is nullable, or has a default that conforms to its type. -/
theorem SoundInputs.default_of_mem_omitted (sound : schema.SoundInputs)
    (compiled : schema.Compiled) (values : Members) {literal : Literal} {type : TypeRef} :
    ∀ input ∈ schema.omitted type literal, schema.ConformsOr given input.type
      (input.default? = none) (Input.default schema values input) := by
  intro input left
  obtain ⟨type, isType, member⟩ :=
    List.mem_flatMap.mp (mem_inputFields_of_mem_omitted literal left)
  exact sound.default compiled values (inputFields_mem_inputLists isType) member

end Schema

end TraversalQuery
