import TraversalQuery.Proofs.Schema.Inputs
import TraversalQuery.Proofs.Typing.Rules

/-!
# The checks of inputs follow the rules

In a compiled schema, where all inputs have types, the checks of literals, arguments, directives and
variables find nothing exactly if the rules admit them.
-/

namespace TraversalQuery

namespace TypeRef

variable {given expected : TypeRef}

/-- What refines a type that forbids `null` refines the one that does not. -/
theorem Refines.of_nonNull (refines : given.Refines (.nonNull expected)) :
    given.Refines expected := by
  generalize isMarked : TypeRef.nonNull expected = marked at refines
  induction refines with
  | named name => cases isMarked
  | list items => cases isMarked
  | marked inner =>
    cases isMarked
    exact .stricter inner
  | stricter inner ih => exact .stricter (ih isMarked)

@[simp] theorem named_refines_named {name other : String} :
    (TypeRef.named name).Refines (.named other) ↔ name = other := by
  refine ⟨fun refines => ?_, fun same => same ▸ .named name⟩
  cases refines
  rfl

@[simp] theorem list_refines_list : given.list.Refines expected.list ↔ given.Refines expected := by
  refine ⟨fun refines => ?_, .list⟩
  cases refines
  assumption

@[simp] theorem nonNull_refines_nonNull :
    given.nonNull.Refines expected.nonNull ↔ given.Refines expected := by
  refine ⟨fun refines => ?_, .marked⟩
  cases refines with
  | marked inner => exact inner
  | stricter inner => exact inner.of_nonNull

/-- Forbidding `null` where it is not forbidden makes no difference. -/
theorem nonNull_refines (nullable : ∀ inner, expected ≠ .nonNull inner) :
    given.nonNull.Refines expected ↔ given.Refines expected := by
  refine ⟨fun refines => ?_, .stricter⟩
  cases refines with
  | marked inner => exact absurd rfl (nullable _)
  | stricter inner => exact inner

/-- A type that refines another names the same type. -/
theorem Refines.namedType_eq (refines : given.Refines expected) :
    given.namedType = expected.namedType := by
  induction refines with
  | named name => rfl
  | list items ih => exact ih
  | marked inner ih => exact ih
  | stricter inner ih => exact ih

/-- Where values of a type that admits `null` can stand, `null` is admitted. -/
theorem Refines.isNonNull (refines : given.Refines expected) (nullable : given.isNonNull = false) :
    expected.isNonNull = false := by
  cases refines with
  | named => rfl
  | list => rfl
  | marked => cases nullable
  | stricter => cases nullable

end TypeRef

namespace Typing

/-- Without a default, variables fit exactly where their type refines the expected one. -/
theorem variableFits_iff {given expected : TypeRef} {hasDefault : Bool} :
    variableFits given expected hasDefault = true ↔ given.Refines expected ∨
      hasDefault = true ∧ given.isNonNull = false ∧
        ∃ inner, expected = .nonNull inner ∧ given.Refines inner := by
  fun_induction variableFits given expected hasDefault with
  | case1 hasDefault given expected ih => simpa [TypeRef.isNonNull] using ih
  | case2 hasDefault given expected nullable ih =>
    simpa [TypeRef.isNonNull, TypeRef.nonNull_refines nullable] using ih
  | case3 hasDefault given inner nullable ih =>
    have loose : given.isNonNull = false := by cases given <;> simp_all [TypeRef.isNonNull]
    have different : ¬ given.Refines (.nonNull inner) := by
      intro refines
      cases refines with
      | marked => exact nullable _ rfl
      | stricter => exact nullable _ rfl
    simpa [loose, different] using fun _ => ih
  | case4 hasDefault given expected ih => simpa using ih
  | case5 hasDefault given expected => simp
  | case6 given expected hasDefault loose nullable _ noLists noNames =>
    have different : ¬ given.Refines expected := by
      intro refines
      cases refines with
      | named name => exact noNames _ _ rfl rfl
      | list items => exact noLists _ _ rfl rfl
      | marked inner => exact loose _ rfl
      | stricter inner => exact loose _ rfl
    simpa [different] using fun _ _ inner marked => absurd marked (nullable inner)

/-- The check of a variable passes exactly if it fits. -/
theorem variableFits_iff_fits {definition : VariableDefinition} {expected : TypeRef} :
    variableFits definition.type expected definition.default?.isSome = true ↔
      definition.Fits expected := by
  rw [variableFits_iff]
  constructor
  · rintro (refines | ⟨defaults, nullable, inner, rfl, refines⟩)
    · exact .refines refines
    · exact .defaulted defaults nullable refines
  · rintro (refines | ⟨defaults, nullable, refines⟩)
    · exact .inl refines
    · exact .inr ⟨defaults, nullable, _, rfl, refines⟩

end Typing

namespace VariableDefinition

variable {definition : VariableDefinition} {expected : TypeRef}

/-- A variable that fits names the type that is expected. -/
theorem Fits.namedType_eq (fits : definition.Fits expected) :
    definition.type.namedType = expected.namedType := by
  cases fits with
  | refines refines => exact refines.namedType_eq
  | defaulted _ _ refines => exact refines.namedType_eq

/-- A variable that fits where `null` is forbidden fits where it is not. -/
theorem Fits.of_nonNull (fits : definition.Fits (.nonNull expected)) :
    definition.Fits expected := by
  cases fits with
  | refines refines => exact .refines refines.of_nonNull
  | defaulted _ _ refines => exact .refines refines

end VariableDefinition

namespace Typing

variable {scope : Scope}

/-- Nothing is wrong with a variable exactly if it is admitted. -/
theorem variableProblems_eq_nil_iff {name path : String} {type : TypeRef} :
    variableProblems scope name type path = [] ↔ scope.Admits type (.reference name) := by
  unfold variableProblems
  constructor
  · intro clean
    split at clean
    · contradiction
    · rename_i definition declared
      split at clean
      · rename_i fits
        exact .reference declared (variableFits_iff_fits.mp fits)
      · contradiction
  · intro admitted
    cases admitted with
    | reference declared fits => simp [declared, variableFits_iff_fits.mpr fits]
    | _ => contradiction

/-- Nothing is wrong with items exactly if nothing is with each of them. -/
theorem itemProblems_eq_nil_iff {type : TypeRef} {path : String} {items : List Literal}
    {fine : Literal → Prop} (each : ∀ item ∈ items, ∀ path,
      literalProblems scope type path item = [] ↔ fine item) :
    ∀ index, itemProblems scope type path index items = [] ↔ ∀ item ∈ items, fine item := by
  induction items with
  | nil => simp [itemProblems]
  | cons item rest ih =>
    obtain ⟨first, others⟩ := List.forall_mem_cons.mp each
    intro index
    rw [itemProblems, List.append_eq_nil_iff, first, ih others, List.forall_mem_cons]

namespace Scope

variable {literal : Literal} {type inner item : TypeRef} {name path : String}

/-- `null` is admitted exactly where it is not forbidden. -/
theorem admits_null_iff : scope.Admits type .null ↔ type.isNonNull = false := by
  refine ⟨fun admitted => ?_, .null⟩
  cases admitted with
  | null nullable => exact nullable
  | nonNull isValue => exact isValue.elim
  | single isValue => exact isValue.elim
  | scalar isValue => exact isValue.elim

/-- Where `null` is forbidden, other literals are admitted as elsewhere. -/
theorem admits_nonNull_iff (isValue : literal.IsValue) :
    scope.Admits (.nonNull inner) literal ↔ scope.Admits inner literal := by
  refine ⟨fun admitted => ?_, .nonNull isValue⟩
  cases admitted with
  | reference => exact isValue.elim
  | null => exact isValue.elim
  | nonNull _ admitted => exact admitted

/-- What is admitted is admitted where `null` may stand too. -/
theorem Admits.of_nullable (admitted : scope.Admits type literal) :
    scope.Admits type.nullable literal := by
  induction type with
  | nonNull inner ih =>
    cases admitted with
    | reference declared fits => exact ih (.reference declared fits.of_nonNull)
    | null nullable => cases nullable
    | nonNull _ admitted => exact ih admitted
  | _ => exact admitted

/-- Where `null` is not forbidden, other literals are admitted as elsewhere. -/
theorem admits_nullable_iff (isValue : literal.IsValue) :
    scope.Admits type.nullable literal ↔ scope.Admits type literal := by
  induction type with
  | nonNull inner ih => exact ih.trans (admits_nonNull_iff isValue).symm
  | _ => rfl

/-- A list is admitted exactly if its items are. -/
theorem admits_list_iff {items : List Literal} :
    scope.Admits (.list item) (.list items) ↔ ∀ literal ∈ items, scope.Admits item literal := by
  refine ⟨fun admitted => ?_, .list⟩
  cases admitted with
  | list each => exact each
  | single _ isSingle => exact absurd trivial isSingle

/-- A literal that is no list is looked at where the name inside all lists is expected. -/
theorem admits_namedType_iff (isValue : literal.IsValue) (isSingle : ¬ literal.IsList) :
    scope.Admits (.named type.namedType) literal ↔ scope.Admits type literal := by
  induction type with
  | named name => rfl
  | nonNull inner ih => exact ih.trans (admits_nonNull_iff isValue).symm
  | list item ih =>
    refine ih.trans ⟨.single isValue isSingle, fun admitted => ?_⟩
    cases admitted with
    | reference => exact isValue.elim
    | null => exact isValue.elim
    | list each => exact absurd trivial isSingle
    | single _ _ admitted => exact admitted

/-- What makes the fields of an object admitted for an input type. -/
theorem admits_object_iff {fields : List (String × Literal)} {found : SchemaType}
    {declared : List InputValue} (isType : scope.schema.get? name = some found)
    (isInput : found.body = .input declared) :
    scope.Admits (.named name) (.object fields) ↔ (fields.map Prod.fst).Nodup ∧
      (∀ field ∈ fields, ∃ input, declared.find? (·.name == field.1) = some input ∧
        scope.Admits input.type field.2) ∧
      ∀ input ∈ declared, input.isRequired = true → input.name ∈ fields.map Prod.fst := by
  constructor
  · intro admitted
    cases admitted with
    | scalar _ isType' isScalar =>
      obtain rfl := Option.some.inj (isType.symm.trans isType')
      cases isInput.symm.trans isScalar
    | object isType' isInput' distinct known each required =>
      obtain rfl := Option.some.inj (isType.symm.trans isType')
      cases isInput.symm.trans isInput'
      refine ⟨distinct, fun field member => ?_, required⟩
      obtain ⟨input, found⟩ := Option.isSome_iff_exists.mp (known field member)
      exact ⟨input, found, each field member input found⟩
  · rintro ⟨distinct, each, required⟩
    refine .object isType isInput distinct (fun field member => ?_)
      (fun field member input found => ?_) required
    · obtain ⟨input, found, _⟩ := each field member
      simp [found]
    · obtain ⟨other, found', admitted⟩ := each field member
      obtain rfl := Option.some.inj (found.symm.trans found')
      exact admitted

/-- A literal that is not looked into is accepted as a whole. -/
theorem wholeProblems_eq_nil_iff {found : SchemaType} (isValue : literal.IsValue)
    (isType : scope.schema.get? name = some found) (closed : ∀ fields declared,
      literal = .object fields → found.body ≠ .input declared) :
    wholeProblems scope name path literal = [] ↔ scope.Admits (.named name) literal := by
  have named := Schema.name_of_get? isType
  have accepted : wholeProblems scope name path literal = [] ↔ accepts found literal = true := by
    simp [wholeProblems, isType]
  rw [accepted]
  unfold accepts
  constructor
  · intro holds
    split at holds
    · rename_i isScalar
      exact .scalar isValue isType isScalar (named ▸ holds)
    · rename_i values value isEnum
      exact .enumValue isType isEnum (by simpa using holds)
    · contradiction
  · intro admitted
    cases admitted with
    | reference => exact isValue.elim
    | null => exact isValue.elim
    | scalar _ isType' isScalar accepted =>
      obtain rfl := Option.some.inj (isType.symm.trans isType')
      simpa [isScalar, named] using accepted
    | enumValue isType' isEnum member =>
      obtain rfl := Option.some.inj (isType.symm.trans isType')
      simpa [isEnum] using member
    | object isType' isInput =>
      obtain rfl := Option.some.inj (isType.symm.trans isType')
      exact absurd isInput (closed _ _ rfl)

/-- **Literals are checked by the rules**, wherever a type of a compiled schema is expected. -/
theorem literalProblems_eq_nil_iff (compiled : scope.schema.Compiled) (literal : Literal) :
    ∀ {type : TypeRef} {path : String}, (scope.schema.get? type.namedType).isSome = true →
      (literalProblems scope type path literal = [] ↔ scope.Admits type literal) := by
  -- What is neither a list nor an object is accepted as a whole, whatever lists are around it.
  have whole {literal : Literal} (isValue : literal.IsValue) (isSingle : ¬ literal.IsList)
      (noObject : ∀ fields, literal ≠ .object fields) {type : TypeRef} {path : String}
      (known : (scope.schema.get? type.namedType).isSome = true) :
      wholeProblems scope type.namedType path literal = [] ↔ scope.Admits type literal := by
    obtain ⟨found, isType⟩ := Option.isSome_iff_exists.mp known
    rw [← admits_namedType_iff isValue isSingle]
    exact wholeProblems_eq_nil_iff isValue isType fun fields _ same => absurd same (noObject fields)
  induction literal using Literal.deepInduction with
  | reference name => exact fun _ => variableProblems_eq_nil_iff
  | null =>
    intro type path _
    rw [literalProblems, admits_null_iff]
    cases type.isNonNull <;> simp
  | list items ih =>
    intro type path known
    rw [← admits_nullable_iff (by trivial), literalProblems]
    split
    · rename_i item isList
      rw [isList, admits_list_iff]
      refine itemProblems_eq_nil_iff (fun literal member path => ih literal member ?_) 0
      rwa [← TypeRef.namedType_nullable, isList] at known
    · rename_i noList
      rw [TypeRef.nullable_eq_named noList]
      obtain ⟨found, isType⟩ := Option.isSome_iff_exists.mp known
      exact wholeProblems_eq_nil_iff trivial isType fun _ _ same => Literal.noConfusion same
  | object fields ih =>
    intro type path known
    rw [← admits_namedType_iff (by trivial) id, literalProblems]
    split
    · rename_i name declared directives isType
      have typed : ∀ input ∈ declared, (scope.schema.get? input.type.namedType).isSome = true :=
        compiled.isSome_input declared
          (Schema.inputFields_mem_inputLists (Schema.mem_of_get? isType))
      rw [admits_object_iff isType rfl, List.append_eq_nil_iff, fieldProblems_eq_nil_iff,
        missingFields, missing_eq_nil_iff, and_assoc]
      refine and_congr_right fun _ => and_congr_left' (forall₂_congr fun field member => ?_)
      exact exists_congr fun input => and_congr_right fun found =>
        ih field member (typed input (List.mem_of_find?_eq_some found))
    · rename_i noInput
      obtain ⟨found, isType⟩ := Option.isSome_iff_exists.mp known
      refine wholeProblems_eq_nil_iff trivial isType fun _ declared _ isInput => ?_
      exact noInput found.name declared found.directives (isInput ▸ isType)
  | _ =>
    intro type path known
    rw [literalProblems]
    exact whole (by trivial) id (by simp) known

/-- Arguments are checked by the rules where inputs of a compiled schema are declared. -/
theorem argumentProblems_eq_nil_iff (compiled : scope.schema.Compiled) {declared : List InputValue}
    (typed : ∀ input ∈ declared, (scope.schema.get? input.type.namedType).isSome = true)
    {arguments : List Argument} :
    argumentProblems scope declared path arguments = [] ↔
      scope.AdmitsArguments declared arguments := by
  have each : (∀ argument ∈ arguments, ∃ input,
      declared.find? (·.name == argument.name) = some input ∧
        literalProblems scope input.type s!"{path}({argument.name})" argument.value = []) ↔
      ∀ argument ∈ arguments, ∃ input, declared.find? (·.name == argument.name) = some input ∧
        scope.Admits input.type argument.value :=
    forall₂_congr fun argument _ => exists_congr fun input => and_congr_right fun found =>
      literalProblems_eq_nil_iff compiled _ (typed input (List.mem_of_find?_eq_some found))
  unfold argumentProblems
  rw [List.append_eq_nil_iff, givenProblems_eq_nil_iff, missing_eq_nil_iff, each]
  exact ⟨fun all => ⟨all.1.1, all.1.2, all.2⟩, fun all => ⟨⟨all.distinct, all.each⟩, all.required⟩⟩

/-- Directives are checked by the rules in compiled schemas. -/
theorem directiveProblems_eq_nil_iff (compiled : scope.schema.Compiled)
    {directives : List Directive} :
    directiveProblems scope path directives = [] ↔ scope.AdmitsDirectives directives := by
  have typed : ∀ input ∈ [conditionArgument],
      (scope.schema.get? input.type.namedType).isSome = true :=
    List.forall_mem_singleton.mpr
      (Option.isSome_iff_exists.mpr ⟨_, compiled.get?_scalar (by decide)⟩)
  unfold directiveProblems AdmitsDirectives
  simp only [List.flatMap_eq_nil_iff, List.mem_filter, Bool.or_eq_true, beq_iff_eq, and_imp,
    argumentProblems_eq_nil_iff compiled typed]

/-- Variables are checked by the rules in compiled schemas. -/
theorem variableDefinitionProblems_eq_nil_iff (compiled : scope.schema.Compiled)
    {definitions : List VariableDefinition} :
    variableDefinitionProblems scope [] definitions = [] ↔ scope.AdmitsVariables definitions := by
  have walked : variableDefinitionProblems scope [] definitions = [] ↔
      (definitions.map (·.name)).Nodup ∧ ∀ definition ∈ definitions,
        (∃ type, scope.schema.get? definition.type.namedType = some type ∧
          type.kind.isInput = true) ∧
        ∀ literal ∈ definition.default?, scope.Admits definition.type literal := by
    refine walk_eq_nil_iff (fun _ => rfl) (fun seen definition rest => ?_) definitions
    rw [variableDefinitionProblems, List.append_eq_nil_iff, List.append_eq_nil_iff, and_assoc]
    refine and_congr (by simp) (and_congr_left' ?_)
    unfold Schema.kindOf?
    cases found : scope.schema.get? definition.type.namedType with
    | none => simp
    | some type =>
      have known : (scope.schema.get? definition.type.namedType).isSome = true := by simp [found]
      cases isInput : type.kind.isInput with
      | false => simp [isInput]
      | true =>
        cases isDefault : definition.default? with
        | none => simp [isInput]
        | some literal => simp [isInput, literalProblems_eq_nil_iff compiled literal known]
  rw [walked]
  exact ⟨fun all => ⟨all.1, fun definition member => (all.2 definition member).1,
    fun definition member => (all.2 definition member).2⟩,
    fun all => ⟨all.distinct, fun definition member =>
      ⟨all.isInput definition member, all.defaults definition member⟩⟩⟩

end Scope

end Typing

end TraversalQuery
