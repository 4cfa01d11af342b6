import TraversalQuery.Proofs.Schema.Compiled

/-!
# Implementing interfaces

A schema is compiled whatever the types that list an interface look like. Here it is said when they
implement it: they list its interfaces too, and have its fields with types that satisfy those of the
interface. Then a field of a type is also a field of the objects that occur in its place.
-/

namespace TraversalQuery

namespace Schema

/-- A type with the interfaces and the fields of an interface. -/
structure Implements (schema : Schema) (type interface : SchemaType) : Prop where
  interfaces : ∀ name ∈ interface.interfaces, name ∈ type.interfaces
  fields : ∀ field ∈ interface.fields, ∃ own ∈ type.field? field.name,
    ∀ output ∈ schema.get? own.type.namedType, output.satisfies field.type.namedType = true

instance (schema : Schema) (type interface : SchemaType) :
    Decidable (schema.Implements type interface) :=
  decidable_of_iff ((∀ name ∈ interface.interfaces, name ∈ type.interfaces) ∧
      ∀ field ∈ interface.fields, ∃ own ∈ type.field? field.name,
        ∀ output ∈ schema.get? own.type.namedType, output.satisfies field.type.namedType = true)
    ⟨fun both => ⟨both.1, both.2⟩, fun implements => ⟨implements.interfaces, implements.fields⟩⟩

/-- All types of a schema implement the interfaces that they list. -/
def Implemented (schema : Schema) : Prop :=
  ∀ type ∈ schema.types, ∀ interface ∈ schema.types, interface.name ∈ type.interfaces →
    schema.Implements type interface

instance (schema : Schema) : Decidable schema.Implemented :=
  inferInstanceAs (Decidable (∀ type ∈ schema.types, ∀ interface ∈ schema.types,
    interface.name ∈ type.interfaces → schema.Implements type interface))

variable {schema : Schema}

/-- A type satisfies its own name and those of its interfaces. -/
theorem satisfies_iff {type : SchemaType} {name : String} :
    type.satisfies name = true ↔ name = type.name ∨ name ∈ type.interfaces := by
  simp [SchemaType.satisfies]

/-- The type of a name satisfies it. -/
theorem satisfies_of_get? {name : String} {type : SchemaType}
    (found : schema.get? name = some type) : type.satisfies name = true :=
  satisfies_iff.mpr (.inl (name_of_get? found).symm)

/-- Objects that satisfy a type are the type itself or implement it. -/
theorem Implemented.eq_or_implements (implemented : schema.Implemented)
    (compiled : schema.Compiled) {object parent : SchemaType} (isType : object ∈ schema.types)
    (isParent : parent ∈ schema.types) (satisfies : object.satisfies parent.name = true) :
    parent = object ∨ schema.Implements object parent := by
  rcases satisfies_iff.mp satisfies with same | listed
  · have found := compiled.get?_name isParent
    rw [same, compiled.get?_name isType] at found
    exact .inl (Option.some.inj found).symm
  · exact .inr (implemented object isType parent isParent listed)

/-- A field of a type is one of the objects in its place, with a type that satisfies its own. -/
theorem Implemented.field (implemented : schema.Implemented) (compiled : schema.Compiled)
    {object parent : SchemaType} (isType : object ∈ schema.types)
    (isParent : parent ∈ schema.types) (satisfies : object.satisfies parent.name = true)
    {name : String} {declared : OutputField} (found : parent.field? name = some declared) :
    ∃ own, object.field? name = some own ∧ ∀ output,
      schema.get? own.type.namedType = some output →
        output.satisfies declared.type.namedType = true := by
  rcases implemented.eq_or_implements compiled isType isParent satisfies with rfl | implements
  · exact ⟨declared, found, fun output => satisfies_of_get?⟩
  · obtain ⟨own, isOwn, outputs⟩ := implements.fields declared (List.mem_of_find?_eq_some found)
    have named : declared.name = name := by simpa using List.find?_some found
    exact ⟨own, named ▸ isOwn, outputs⟩

/-- The type that objects have where a type is declared satisfies all that the declared one does. -/
theorem Implemented.runtimeType_satisfies (implemented : schema.Implemented)
    {type : SchemaType} (isType : type ∈ schema.types) {name : String}
    (satisfies : type.satisfies name = true) :
    (schema.runtimeType type).satisfies name = true := by
  unfold runtimeType
  split
  · cases first : (schema.implementations type.name).head? with
    | none => exact satisfies
    | some object =>
      obtain ⟨isObject, shape⟩ := List.mem_filter.mp (List.mem_of_head? first)
      have listed : type.name ∈ object.interfaces := by
        simpa using (Bool.and_eq_true_iff.mp shape).2
      refine satisfies_iff.mpr (.inr ?_)
      rcases satisfies_iff.mp satisfies with rfl | inherited
      · exact listed
      · exact (implemented object isObject type isType listed).interfaces _ inherited
  · exact satisfies

end Schema

end TraversalQuery
