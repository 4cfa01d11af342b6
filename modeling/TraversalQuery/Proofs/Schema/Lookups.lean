import TraversalQuery.Proofs.Schema.Definitions

/-!
# Looking types up

The types of a compiled schema can be looked up by an index of their positions. It has a position
for every name that is declared, and the type at that position is the one of the name: the built-in
scalars stand before the types that are declared, and no name is there twice.
-/

namespace TraversalQuery

namespace Schema

variable {schema : Schema}

/-- A type is found exactly for the names of types. -/
theorem exists_get?_iff {name : String} :
    (∃ type, schema.get? name = some type) ↔ name ∈ schema.types.map (·.name) := by
  rw [← Option.isSome_iff_exists, get?, List.find?_isSome, List.mem_map]
  simp only [beq_iff_eq]

/-- **A compiled schema has what is declared and names nothing else.** Its types are the built-in
scalars and those that the definitions declare, under names of their own, and the index leads to the
type of every name. Each is made of its definition and its extensions, so whatever is written is
part of a type. Every root and every type that an interface list, a field, an argument or an input
field names is there and fits, and no type has two fields of one name. -/
theorem closed_of_compiledFrom {written : List TypeDefinition}
    (compiled : schema.CompiledFrom written) :
    (schema.types.map (·.name)).Nodup ∧
      (∀ name ∈ builtinScalars, schema.get? name = some (.scalar name)) ∧
      (∀ name, (∃ type, schema.get? name = some type) ↔ name ∈ builtinScalars ∨
        ∃ definition ∈ written, definition.isExtension = false ∧ definition.name = name) ∧
      (∀ name type, schema.get? name = some type → type.name = name) ∧
      (∀ name, schema.get? name = (schema.index.lookup name).bind (schema.types[·]?)) ∧
      (∀ (name : String) (position : Nat), schema.index.lookup name = some position →
        position < schema.types.length) ∧
      (∀ type ∈ schema.types, type.MadeOf (TypeDefinition.parts written type.name)) ∧
      (∀ definition ∈ written, ∃ type, schema.get? definition.name = some type ∧
        definition ∈ TypeDefinition.parts written type.name) ∧
      schema.Closed := by
  have isCompiled := compiled.isCompiled
  refine ⟨isCompiled.nodup_names, fun _ => isCompiled.get?_scalar, fun name => ?_,
    fun _ _ => name_of_get?, get?_eq_index isCompiled.nodup_names, fun name position found => ?_,
    compiled.madeOf, compiled.exists_type, isCompiled.closed⟩
  · rw [exists_get?_iff, compiled.names_eq, List.mem_append]
    simp [TypeDefinition.declarations, and_assoc]
  · obtain ⟨type, present, _⟩ := (lookup_index_eq_some_iff isCompiled.nodup_names).mp found
    exact (List.getElem?_eq_some_iff.mp present).1

/-- Sources of a library: the first extends types that the second declares, and both name roots. -/
def librarySources : List String :=
  ["extend type Book implements Titled \x7b tags(order: Order): ID \x7d " ++
      "schema \x7b mutation: Book \x7d",
    "schema \x7b query: Book \x7d type Book \x7b title: ID \x7d " ++
      "interface Titled \x7b title: ID \x7d " ++
      "extend enum Order \x7b DOWN \x7d enum Order \x7b UP \x7d"]

/-- What is written in the library is in its schema, extensions that come before their types among
it. -/
theorem closed_of_compiledFrom_library : ∃ schema,
    compileWithFilters librarySources = .ok schema ∧
      schema.CompiledFrom (Filter.types ++ librarySources.flatMap TypeDefinition.inSource) ∧
      (schema.get? "Book").map (fun type => (type.interfaces, type.fields.map (·.name))) =
        some (["Titled"], ["title", "tags"]) ∧
      (schema.get? "Order").map (·.enumValues) = some ["UP", "DOWN"] ∧
      schema.Closed := by
  have ran : (compileWithFilters librarySources).toOption.any (fun schema =>
      (schema.get? "Book").map (fun type => (type.interfaces, type.fields.map (·.name))) ==
          some (["Titled"], ["title", "tags"]) &&
        (schema.get? "Order").map (·.enumValues) == some ["UP", "DOWN"]) = true := by
    decide +kernel
  obtain ⟨schema, made, shown⟩ := (Option.any_eq_true _ _).mp ran
  obtain ⟨book, order⟩ := Bool.and_eq_true_iff.mp shown
  have compiled := Except.of_toOption_eq_some made
  exact ⟨schema, compiled, .filtered compiled, beq_iff_eq.mp book, beq_iff_eq.mp order,
    (closed_of_compiledFrom (.filtered compiled)).2.2.2.2.2.2.2.2⟩

end Schema

end TraversalQuery
