import TraversalQuery.Proofs.Response.Defaults
import TraversalQuery.Typing.Query

/-!
# The values of variables

A variable has the value that was given for it, or else that of its default. Where the checks let a
variable stand, either of them conforms, unless it is `null` in spite of a default.
-/

namespace TraversalQuery

namespace Typing

/-- Variables without problems have names of their own and types, which accept their defaults. -/
theorem of_variableDefinitionProblems_eq_nil {scope : Scope}
    {definitions : List VariableDefinition} :
    ∀ {seen : List String}, variableDefinitionProblems scope seen definitions = [] →
      (∀ definition ∈ definitions, definition.name ∉ seen) ∧ (definitions.map (·.name)).Nodup ∧
      ∀ definition ∈ definitions, (scope.schema.get? definition.type.namedType).isSome = true ∧
        ∀ literal ∈ definition.default?, ∃ path,
          literalProblems scope definition.type path literal = [] := by
  induction definitions with
  | nil => exact fun _ => ⟨List.forall_mem_nil _, List.nodup_nil, List.forall_mem_nil _⟩
  | cons definition rest ih =>
    intro seen clean
    obtain ⟨first, later⟩ := List.append_eq_nil_iff.mp clean
    obtain ⟨onName, onType⟩ := List.append_eq_nil_iff.mp first
    obtain ⟨fresh, nodup, each⟩ := ih later
    refine ⟨List.forall_mem_cons.mpr ⟨?_, fun other member met =>
      fresh other member (List.mem_cons_of_mem _ met)⟩, List.nodup_cons.mpr ⟨?_, nodup⟩,
      List.forall_mem_cons.mpr ⟨?_, each⟩⟩
    · simpa using onName
    · intro repeated
      obtain ⟨other, member, same⟩ := List.mem_map.mp repeated
      exact fresh other member (same ▸ List.mem_cons_self)
    · split at onType
      · contradiction
      · rename_i kind isKind
        obtain ⟨type, found, _⟩ := Option.map_eq_some_iff.mp isKind
        refine ⟨by rw [found]; rfl, fun literal isDefault => ?_⟩
        split at onType
        · rw [Option.mem_def.mp isDefault] at onType
          exact ⟨_, onType⟩
        · contradiction

/-- The variables of an operation without problems have none. -/
theorem variableDefinitionProblems_eq_nil {schema : Schema} {fragments : List Fragment}
    {operation : Operation} (valid : operationProblems schema fragments operation = []) :
    variableDefinitionProblems ⟨schema, operation.variableDefinitions, fragments⟩ []
      operation.variableDefinitions = [] := by
  unfold operationProblems at valid
  dsimp only at valid
  split at valid
  · contradiction
  · exact (List.append_eq_nil_iff.mp (List.append_eq_nil_iff.mp valid).1).1

end Typing

namespace Input

variable {schema : Schema} {provided : Members}

/-- Other variables do not change the value of a variable. -/
theorem get?_variableValues_of_notMem {name : String} {definitions : List VariableDefinition} :
    ∀ {values final}, variableValues schema provided definitions values = ([], final) →
      name ∉ definitions.map (·.name) → Members.get? name final = Members.get? name values := by
  induction definitions with
  | nil =>
    intro values final made _
    cases made
    rfl
  | cons definition rest ih =>
    intro values final made absent
    obtain ⟨different, absent⟩ := not_or.mp (mt List.mem_cons.mpr absent)
    unfold variableValues at made
    split at made
    · cases made
    · exact ih made absent
    · rw [ih made absent, Members.get?_insert_of_ne _ _ different]

/-- Variables with names of their own have their own values. -/
theorem get?_variableValues {definitions : List VariableDefinition}
    (distinct : (definitions.map (·.name)).Nodup) {definition : VariableDefinition}
    (member : definition ∈ definitions) :
    ∀ {values final}, variableValues schema provided definitions values = ([], final) →
      Members.get? definition.name values = none →
        variableValue schema provided definition = .ok (Members.get? definition.name final) := by
  induction definitions with
  | nil => cases member
  | cons first rest ih =>
    intro values final made absent
    obtain ⟨fresh, distinct⟩ := List.nodup_cons.mp distinct
    unfold variableValues at made
    rcases List.mem_cons.mp member with rfl | later
    · split at made
      · cases made
      · rename_i none
        rw [get?_variableValues_of_notMem made fresh, absent, none]
      · rename_i value some
        rw [get?_variableValues_of_notMem made fresh, Members.get?_insert_self, some]
    · have different : definition.name ≠ first.name := fun same =>
        fresh (List.mem_map.mpr ⟨definition, later, same⟩)
      split at made
      · cases made
      · exact ih distinct later made absent
      · refine ih distinct later made ?_
        rw [Members.get?_insert_of_ne _ _ different, absent]

/-- The values of an operation are those of its variables, and nothing is wrong with them. -/
theorem variableValues_of_operationValues {definitions : List VariableDefinition}
    {values : Members} (made : operationValues schema definitions provided = .ok values) :
    variableValues schema provided definitions [] = ([], values) := by
  unfold operationValues at made
  split at made
  · rename_i found
    rw [found, Except.ok.inj made]
  · contradiction

end Input

/-- A variable that is not `null` in spite of a default: the default is a value, and so is what was
given in its place. -/
structure VariableDefinition.Definite (provided : Members) (definition : VariableDefinition) :
    Prop where
  finite : ∀ literal ∈ definition.default?, literal.isFinite = true
  proper : ∀ literal ∈ definition.default?, literal.isNull = false
  given : definition.default?.isSome = true →
    ∀ value ∈ Members.get? definition.name provided, value.isNull = false

instance (provided : Members) (definition : VariableDefinition) :
    Decidable (definition.Definite provided) :=
  decidable_of_iff ((∀ literal ∈ definition.default?, literal.isFinite = true) ∧
      (∀ literal ∈ definition.default?, literal.isNull = false) ∧
      (definition.default?.isSome = true →
        ∀ value ∈ Members.get? definition.name provided, value.isNull = false))
    ⟨fun all => ⟨all.1, all.2.1, all.2.2⟩,
      fun definite => ⟨definite.finite, definite.proper, definite.given⟩⟩

/-- A value that was given for a variable. -/
def GivenFor (provided : Members) (definitions : List VariableDefinition) (value : Json) : Prop :=
  ∃ definition ∈ definitions, Members.get? definition.name provided = some value

namespace Schema

variable {schema : Schema} {provided : Members}

/-- The value of a variable conforms where its type fits. -/
theorem conformsOr_variableValue (compiled : schema.Compiled) (sound : schema.SoundInputs)
    {definitions : List VariableDefinition} {definition : VariableDefinition}
    (member : definition ∈ definitions) (definite : definition.Definite provided)
    (isType : (schema.get? definition.type.namedType).isSome = true)
    (constant : ∀ literal ∈ definition.default?, literal.isProper true = true)
    (accepted : ∀ literal ∈ definition.default?, ∃ path,
      Typing.literalProblems ⟨schema, [], []⟩ definition.type path literal = [])
    {value? : Option Json}
    (made : Input.variableValue schema provided definition = .ok value?) {type : TypeRef}
    (fits : Typing.variableFits definition.type type definition.default?.isSome = true) :
    schema.ConformsOr (GivenFor provided definitions) type (type.isNonNull = false) value? := by
  unfold Input.variableValue at made
  dsimp only at made
  split at made
  · rename_i value given
    split at made
    · rename_i held
      obtain rfl := Except.ok.inj made
      have conforms := (conforms_of_fits value definition.type held).of_variableFits fits
        fun defaulted => Json.ne_null_of_isNull (definite.given defaulted value given)
      exact .provided ⟨definition, member, given⟩ (conforms.mono fun _ => False.elim)
    · cases made
  · split at made
    · rename_i literal isDefault
      obtain ⟨path, accepted⟩ := accepted literal isDefault
      have finite := definite.finite literal isDefault
      obtain ⟨value, found, conforms⟩ : ∃ value,
          Input.coerce schema [] literal definition.type = some value ∧
            schema.Conforms (fun _ => False) .written definition.type value :=
        exists_ofLiteral compiled sound accepted finite isType
          (sound.default_of_mem_omitted compiled [])
      have proper := Input.ne_null_of_ofLiteral found (constant literal isDefault) finite
        (definite.proper literal isDefault)
      obtain rfl : some value = value? := found.symm.trans (Except.ok.inj made)
      exact (conforms.of_variableFits fits fun _ => proper).mono fun _ => False.elim
    · rename_i noDefault
      split at made
      · cases made
      · rename_i nullable
        obtain rfl := Except.ok.inj made
        rw [noDefault] at fits
        obtain refines | ⟨defaulted, _⟩ := Typing.variableFits_iff.mp fits
        · exact refines.isNonNull (by simpa using nullable)
        · cases defaulted

/-- **Variables conform where they may stand.** -/
theorem conformsOr_variable (compiled : schema.Compiled) (sound : schema.SoundInputs)
    {definitions : List VariableDefinition} {fragments : List Fragment}
    (clean : Typing.variableDefinitionProblems ⟨schema, definitions, fragments⟩ [] definitions = [])
    (constant : ∀ definition ∈ definitions, ∀ literal ∈ definition.default?,
      literal.isProper true = true)
    (definite : ∀ definition ∈ definitions, definition.Definite provided) {values : Members}
    (accepted : Input.operationValues schema definitions provided = .ok values)
    (name : String) (type : TypeRef) (path : String)
    (stands : Typing.variableProblems ⟨schema, definitions, fragments⟩ name type path = []) :
    schema.ConformsOr (GivenFor provided definitions) type (type.isNonNull = false)
      (Members.get? name values) := by
  obtain ⟨_, distinct, each⟩ := Typing.of_variableDefinitionProblems_eq_nil clean
  unfold Typing.variableProblems at stands
  split at stands
  · contradiction
  · rename_i definition found
    split at stands
    · rename_i fits
      have member := List.mem_of_find?_eq_some found
      obtain rfl : definition.name = name := by simpa using List.find?_some found
      obtain ⟨isType, defaults⟩ := each definition member
      refine conformsOr_variableValue compiled sound member (definite _ member) isType
        (constant _ member) (fun literal isDefault => ?_) ?_ fits
      · obtain ⟨path, clean⟩ := defaults literal isDefault
        have isConstant := constant _ member literal isDefault
        exact ⟨path,
          (Typing.literalProblems_of_isProper (by rfl) literal isConstant _ _).trans clean⟩
      · exact Input.get?_variableValues distinct member
          (Input.variableValues_of_operationValues accepted) rfl
    · contradiction

end Schema

end TraversalQuery
