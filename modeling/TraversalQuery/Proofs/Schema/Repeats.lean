import TraversalQuery.Proofs.Response.Arguments
import TraversalQuery.Proofs.Schema.Lookups

/-!
# Repeated names

Of the names inside a type the check of a schema compares those of its output fields only. So the
arguments of a field, the fields of an input type and the values of an enum have names of their own
exactly if the sources give them such names, in each definition and across the extensions of a type.
Where they do, the first declaration of a name is the only one.
-/

namespace TraversalQuery

open TypeDefinition

/-- Definitions that together give no argument of a field, no field of an input type and no value of
an enum the name of another one. -/
structure TypeDefinition.Unrepeated (written : List TypeDefinition) : Prop where
  arguments : ∀ definition ∈ written, ∀ field ∈ (SchemaType.ofDefinition definition).fields,
    (field.arguments.map (·.name)).Nodup
  inputFields : ∀ name, (((parts written name).flatMap fun part =>
    (SchemaType.ofDefinition part).inputFields).map (·.name)).Nodup
  enumValues : ∀ name, ((parts written name).flatMap fun part =>
    (SchemaType.ofDefinition part).enumValues).Nodup

namespace Schema

variable {schema : Schema}

/-- A schema in which no argument of a field, no field of an input type and no value of an enum has
the name of another one. -/
structure Unrepeated (schema : Schema) : Prop where
  arguments : ∀ type ∈ schema.types, ∀ field ∈ type.fields, (field.arguments.map (·.name)).Nodup
  inputFields : ∀ type ∈ schema.types, (type.inputFields.map (·.name)).Nodup
  enumValues : ∀ type ∈ schema.types, type.enumValues.Nodup

/-- Names do not repeat among the arguments of a field, the fields of an input and the values of an
enum. -/
theorem unrepeated_iff : schema.Unrepeated ↔
    (∀ type ∈ schema.types, ∀ field ∈ type.fields, (field.arguments.map (·.name)).Nodup) ∧
      (∀ type ∈ schema.types, (type.inputFields.map (·.name)).Nodup) ∧
      ∀ type ∈ schema.types, type.enumValues.Nodup :=
  ⟨fun ⟨arguments, inputFields, enumValues⟩ => ⟨arguments, inputFields, enumValues⟩,
    fun ⟨arguments, inputFields, enumValues⟩ => ⟨arguments, inputFields, enumValues⟩⟩

instance : Decidable schema.Unrepeated :=
  decidable_of_iff _ unrepeated_iff.symm

/-- The parts of a type are definitions of its name. -/
theorem mem_of_mem_parts {written : List TypeDefinition} {name : String}
    {definition : TypeDefinition} (member : definition ∈ parts written name) :
    definition ∈ written ∧ definition.name = name := by
  rcases List.mem_append.mp member with declared | extended
  · have ⟨member, named⟩ := List.mem_filter.mp declared
    exact ⟨List.mem_of_mem_filter member, beq_iff_eq.mp named⟩
  · have ⟨member, named⟩ := List.mem_filter.mp extended
    exact ⟨List.mem_of_mem_filter member, beq_iff_eq.mp named⟩

/-- Nothing is written of a name without a type. -/
theorem CompiledFrom.parts_eq_nil_or {written : List TypeDefinition}
    (compiled : schema.CompiledFrom written) (name : String) :
    parts written name = [] ∨ ∃ type ∈ schema.types, type.name = name := by
  cases listed : parts written name with
  | nil => exact .inl rfl
  | cons definition rest =>
    obtain ⟨member, named⟩ := mem_of_mem_parts (listed ▸ List.mem_cons_self :
      definition ∈ parts written name)
    obtain ⟨type, found, _⟩ := compiled.exists_type definition member
    exact .inr ⟨type, mem_of_get? found, (name_of_get? found).trans named⟩

/-- Names are repeated in a schema exactly if they are repeated in what is written. -/
theorem CompiledFrom.unrepeated_iff {written : List TypeDefinition}
    (compiled : schema.CompiledFrom written) :
    schema.Unrepeated ↔ TypeDefinition.Unrepeated written := by
  constructor
  · rintro ⟨arguments, inputFields, enumValues⟩
    refine ⟨fun definition member field isField => ?_, fun name => ?_, fun name => ?_⟩
    · obtain ⟨type, found, part⟩ := compiled.exists_type definition member
      have isType := mem_of_get? found
      refine arguments type isType field ?_
      rw [(compiled.madeOf type isType).fields]
      exact List.mem_flatMap.mpr ⟨definition, part, isField⟩
    · rcases compiled.parts_eq_nil_or name with none | ⟨type, isType, rfl⟩
      · rw [none]
        exact List.nodup_nil
      · rw [← (compiled.madeOf type isType).inputFields]
        exact inputFields type isType
    · rcases compiled.parts_eq_nil_or name with none | ⟨type, isType, rfl⟩
      · rw [none]
        exact List.nodup_nil
      · rw [← (compiled.madeOf type isType).enumValues]
        exact enumValues type isType
  · rintro ⟨arguments, inputFields, enumValues⟩
    refine ⟨fun type isType field isField => ?_, fun type isType => ?_, fun type isType => ?_⟩
    · rw [(compiled.madeOf type isType).fields] at isField
      obtain ⟨part, isPart, isField⟩ := List.mem_flatMap.mp isField
      exact arguments part (mem_of_mem_parts isPart).1 field isField
    · rw [(compiled.madeOf type isType).inputFields]
      exact inputFields type.name
    · rw [(compiled.madeOf type isType).enumValues]
      exact enumValues type.name

/-- **Names are distinct where the sources keep them distinct,** and only there. Then every argument
and every input field is the one that a look-up by its name finds. -/
theorem unrepeated_of_compiledFrom {written : List TypeDefinition}
    (compiled : schema.CompiledFrom written) :
    (schema.Unrepeated ↔ TypeDefinition.Unrepeated written) ∧
      (TypeDefinition.Unrepeated written →
        (∀ type ∈ schema.types, ∀ field ∈ type.fields, ∀ input ∈ field.arguments,
          field.argument? input.name = some input) ∧
        ∀ type ∈ schema.types, ∀ input ∈ type.inputFields,
          type.inputField? input.name = some input) := by
  refine ⟨compiled.unrepeated_iff, fun unrepeated => ?_⟩
  obtain ⟨arguments, inputFields, _⟩ := compiled.unrepeated_iff.mpr unrepeated
  exact ⟨fun type isType field isField input =>
      List.find?_key_eq_some (arguments type isType field isField),
    fun type isType input => List.find?_key_eq_some (inputFields type isType)⟩

/-- Sources whose second one extends an input type and an enum of the first. -/
def boxSources : List String :=
  ["type Query \x7b name(of: Box): ID \x7d input Box \x7b n: Int \x7d enum Size \x7b S \x7d",
    "extend input Box \x7b size: Size \x7d extend enum Size \x7b L \x7d"]

/-- No name of the boxes is repeated, and a look-up finds what an extension adds. -/
theorem unrepeated_of_compiledFrom_boxes : ∃ schema,
    compile boxSources = .ok schema ∧
      schema.CompiledFrom (boxSources.flatMap TypeDefinition.inSource) ∧
      TypeDefinition.Unrepeated (boxSources.flatMap TypeDefinition.inSource) ∧
      (schema.get? "Size").map (·.enumValues) = some ["S", "L"] ∧
      ∀ type ∈ schema.types, ∀ input ∈ type.inputFields,
        type.inputField? input.name = some input := by
  have ran : (compile boxSources).toOption.any (fun schema => decide schema.Unrepeated &&
      (schema.get? "Size").map (·.enumValues) == some ["S", "L"]) = true := by
    decide +kernel
  obtain ⟨schema, made, shown⟩ := (Option.any_eq_true _ _).mp ran
  obtain ⟨unrepeated, values⟩ := Bool.and_eq_true_iff.mp shown
  have isCompiled := Except.of_toOption_eq_some made
  have compiled : schema.CompiledFrom (boxSources.flatMap TypeDefinition.inSource) :=
    .plain isCompiled
  have ⟨iff, found⟩ := unrepeated_of_compiledFrom compiled
  have written := iff.mp (of_decide_eq_true unrepeated)
  exact ⟨schema, isCompiled, compiled, written, beq_iff_eq.mp values, (found written).2⟩

/-- Sources that repeat an argument, a value of an enum, and, by an extension, an input field. -/
def repeatingSources : List String :=
  ["type Query \x7b name(n: Int, n: [Int], of: Box): ID \x7d enum Size \x7b S S \x7d",
    "input Box \x7b n: Int \x7d", "extend input Box \x7b n: [Int] \x7d"]

/-- A request that is checked with the first declarations. -/
def repeatingRequest : Request where
  query := "\x7b name(n: 1, of: \x7bn: 2\x7d) \x7d"
  operation? := none
  variableValues := []

/-- Repeated names are not refused. A value is checked as what is declared first and is passed as
what is declared last: the numbers of the request become lists. -/
theorem repeated_names_compile : ∃ schema,
    compile repeatingSources = .ok schema ∧
      (∃ type ∈ schema.types, ∃ field ∈ type.fields, ¬ (field.arguments.map (·.name)).Nodup) ∧
      (∃ type ∈ schema.types, ¬ (type.inputFields.map (·.name)).Nodup) ∧
      (∃ type ∈ schema.types, ¬ type.enumValues.Nodup) ∧
      (((schema.get? "Query").bind (·.field? "name")).bind (·.argument? "n")).map (·.type) =
        some (.named "Int") ∧
      schema.argumentTexts repeatingRequest =
        [("/name", "\x7b\"n\":[1],\"of\":\x7b\"n\":[2]\x7d\x7d")] := by
  have ran : (compile repeatingSources).toOption.any (fun schema => decide (
      (∃ type ∈ schema.types, ∃ field ∈ type.fields, ¬ (field.arguments.map (·.name)).Nodup) ∧
      (∃ type ∈ schema.types, ¬ (type.inputFields.map (·.name)).Nodup) ∧
      (∃ type ∈ schema.types, ¬ type.enumValues.Nodup) ∧
      (((schema.get? "Query").bind (·.field? "name")).bind (·.argument? "n")).map (·.type) =
        some (.named "Int") ∧
      schema.argumentTexts repeatingRequest =
        [("/name", "\x7b\"n\":[1],\"of\":\x7b\"n\":[2]\x7d\x7d")])) = true := by
    decide +kernel
  obtain ⟨schema, made, shown⟩ := (Option.any_eq_true _ _).mp ran
  exact ⟨schema, Except.of_toOption_eq_some made, of_decide_eq_true shown⟩

end Schema

end TraversalQuery
