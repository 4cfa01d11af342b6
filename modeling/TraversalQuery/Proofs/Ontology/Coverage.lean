import Mathlib.Data.List.Induction
import TraversalQuery.Ontology.Derived
import TraversalQuery.Proofs.Runs

/-!
# What a derived ontology has names for

The ontology of a schema has an entity type for every type with fields that is asked about, and a
property for every field with values on such a type. A relationship type is made of all fields of
its name that lead from an object to an entity: the first decides its type, and each contributes a
pair.
-/

namespace TraversalQuery

namespace Ontology

variable {schema : Schema}

/-- What an ontology takes from a schema. -/
structure DerivedFrom (ontology : Ontology) (schema : Schema) : Prop where
  entities : ontology.entityTypes = entitiesOf schema
  relations : ontology.relationshipTypes = relationsOf schema
  properties : ontology.properties = propertiesOf schema

theorem derivedFrom_of_ofSchema {name : String} {ontology : Ontology}
    (made : ofSchema name schema = .ok ontology) : ontology.DerivedFrom schema := by
  unfold ofSchema at made
  split at made
  · rw [← Except.ok.inj made]
    exact ⟨rfl, rfl, rfl⟩
  · contradiction

/-- The types of a kind that are asked about are among all types. -/
theorem mem_domainTypes {type : SchemaType} {kind : TypeKind} :
    type ∈ schema.domainTypes kind ↔
      type ∈ schema.types ∧ type.kind = kind ∧ schema.isDomainType type = true := by
  rw [Schema.domainTypes, List.mem_filter, Bool.and_eq_true, beq_iff_eq]

/-- Each object adds an entity type of its name. -/
theorem names_addObjects (objects : List SchemaType) :
    ∀ soFar : List EntityType, (addObjects schema objects soFar).map (·.name) =
      soFar.map (·.name) ++ objects.map (·.name) := by
  induction objects with
  | nil => exact fun soFar => (List.append_nil _).symm
  | cons object rest ih =>
    intro soFar
    refine (ih (soFar ++ [objectEntity schema soFar object])).trans ?_
    rw [List.map_append, List.append_assoc]
    rfl

/-- There is an entity type for each interface and object that is asked about. -/
theorem names_entitiesOf : (entitiesOf schema).map (·.name) =
    (schema.domainTypes .interface ++ schema.domainTypes .object).map (·.name) := by
  rw [entitiesOf, names_addObjects, abstractEntities, List.map_map, List.map_append]
  rfl

/-- Every type with fields that is asked about is a type of entities. -/
theorem exists_mem_entitiesOf {type : SchemaType} (isType : type ∈ schema.types)
    (composite : type.kind.isComposite = true) (domain : schema.isDomainType type = true) :
    ∃ entity ∈ entitiesOf schema, entity.name = type.name := by
  refine List.mem_map.mp (names_entitiesOf ▸ List.mem_map_of_mem (List.mem_append.mpr ?_))
  cases kind : type.kind with
  | interface => exact .inl (mem_domainTypes.mpr ⟨isType, kind, domain⟩)
  | object => exact .inr (mem_domainTypes.mpr ⟨isType, kind, domain⟩)
  | _ =>
    rw [kind] at composite
    contradiction

/-- Only types that are asked about are types of entities. -/
theorem exists_of_mem_entitiesOf {entity : EntityType} (member : entity ∈ entitiesOf schema) :
    ∃ type ∈ schema.types, type.name = entity.name ∧ type.kind.isComposite = true ∧
      schema.isDomainType type = true := by
  have named : entity.name ∈ (entitiesOf schema).map (·.name) := List.mem_map_of_mem member
  rw [names_entitiesOf] at named
  obtain ⟨type, listed, named⟩ := List.mem_map.mp named
  rcases List.mem_append.mp listed with isInterface | isObject
  · obtain ⟨isType, kind, domain⟩ := mem_domainTypes.mp isInterface
    exact ⟨type, isType, named, by rw [kind]; rfl, domain⟩
  · obtain ⟨isType, kind, domain⟩ := mem_domainTypes.mp isObject
    exact ⟨type, isType, named, by rw [kind]; rfl, domain⟩

/-- A property is kept, or one of its name is there already. -/
theorem exists_mem_foldl_addProperty {name : String} (added : List PropertyType) :
    ∀ {properties : List PropertyType},
      (∃ property ∈ properties ++ added, property.name = name) →
      ∃ property ∈ added.foldl addProperty properties, property.name = name := by
  induction added with
  | nil => exact fun found => by rwa [List.append_nil] at found
  | cons first rest ih =>
    intro properties found
    apply ih
    obtain ⟨property, member, named⟩ := found
    unfold addProperty
    rcases List.mem_append.mp member with old | member
    · refine ⟨property, List.mem_append_left _ ?_, named⟩
      split
      · exact old
      · exact List.mem_append_left _ old
    · rcases List.mem_cons.mp member with rfl | later
      · split
        · rename_i known
          obtain ⟨other, isOther, same⟩ := List.any_eq_true.mp known
          exact ⟨other, List.mem_append_left _ isOther, (beq_iff_eq.mp same).trans named⟩
        · exact ⟨property, List.mem_append_left _
            (List.mem_append_right _ (List.mem_singleton_self _)), named⟩
      · exact ⟨property, List.mem_append_right _ later, named⟩

/-- Every field with values of a type that is asked about is a property. -/
theorem exists_mem_propertiesOf {type : SchemaType} (isType : type ∈ schema.types)
    (domain : schema.isDomainType type = true) {field : OutputField}
    (isField : field ∈ schema.leafFields type) :
    ∃ property ∈ propertiesOf schema, property.name = field.name := by
  have listed : type ∈ schema.domainTypes .interface ++ schema.domainTypes .object := by
    have fields := (List.mem_filter.mp isField).1
    cases kind : type.kind with
    | interface => exact List.mem_append_left _ (mem_domainTypes.mpr ⟨isType, kind, domain⟩)
    | object => exact List.mem_append_right _ (mem_domainTypes.mpr ⟨isType, kind, domain⟩)
    | _ =>
      unfold SchemaType.kind at kind
      unfold SchemaType.fields at fields
      split at kind <;> simp_all
  refine exists_mem_foldl_addProperty _
    ⟨⟨field.name, field.name, schema.valueTypeName field.type⟩, ?_, rfl⟩
  rw [List.nil_append]
  exact List.mem_map_of_mem (List.mem_flatMap.mpr ⟨type, listed, isField⟩)

/-- The relationship type of a name, made of the fields of that name. -/
def relationOf (entities : List EntityType) (name : String) :
    List (SchemaType × OutputField) → Option RelationshipType
  | [] => none
  | first :: rest =>
    some ⟨name, relationType first.2.type.namedType, true,
      (first :: rest).map fun (object, field) => pairOf entities object field, []⟩

/-- Adding a pair changes only the relationship of its name, which it makes if there is none. -/
theorem find?_addPair {name other rType : String} {pair : EntityPair}
    (relations : List RelationshipType) :
    (addPair name rType pair relations).find? (·.name == other) =
      if other = name then
        match relations.find? (·.name == name) with
        | none => some ⟨name, rType, true, [pair], []⟩
        | some relation => some { relation with pairs := relation.pairs ++ [pair] }
      else relations.find? (·.name == other) := by
  induction relations with
  | nil =>
    by_cases same : other = name
    · simp [addPair, same]
    · simp [addPair, same, Ne.symm same]
  | cons relation rest ih =>
    unfold addPair
    by_cases here : relation.name = name
    · by_cases same : other = name
      · simp [here, same]
      · simp [here, same, Ne.symm same]
    · rw [if_neg here, List.find?_cons, ih]
      by_cases same : other = name
      · subst same
        rw [List.find?_cons, beq_false_of_ne here, if_pos rfl]
      · rw [if_neg same, if_neg same, List.find?_cons]

/-- **Fields of one name make one relationship.** The first of them decides its type, and each of
them contributes a pair. -/
theorem find?_relationsOf (name : String) :
    (relationsOf schema).find? (·.name == name) =
      relationOf (entitiesOf schema) name
        ((relationFields schema).filter fun (_, field) => field.name == name) := by
  unfold relationsOf
  induction relationFields schema using List.reverseRecOn with
  | nil => rfl
  | append_singleton fields last ih =>
    obtain ⟨object, field⟩ := last
    rw [List.foldl_append, List.foldl_cons, List.foldl_nil, find?_addPair, List.filter_append]
    by_cases same : name = field.name
    · subst same
      rw [if_pos rfl, ih]
      cases fields.filter fun (_, other) => other.name == field.name with
      | nil => simp [relationOf]
      | cons first rest => simp [relationOf]
    · rw [if_neg same, ih]
      simp [Ne.symm same]

/-- The fields of relationships lead from objects that are asked about to entities. -/
theorem mem_relationFields {object : SchemaType} {field : OutputField} :
    (object, field) ∈ relationFields schema ↔ object ∈ schema.domainTypes .object ∧
      field ∈ object.fields ∧ field.type.namedType ∈ schema.entityNames := by
  simp only [relationFields, List.mem_flatMap, List.mem_map, List.mem_filter, Prod.mk.injEq,
    List.contains_eq_mem, decide_eq_true_eq]
  constructor
  · rintro ⟨_, isObject, _, ⟨isField, leads⟩, rfl, rfl⟩
    exact ⟨isObject, isField, leads⟩
  · rintro ⟨isObject, isField, leads⟩
    exact ⟨object, isObject, field, ⟨isField, leads⟩, rfl, rfl⟩

namespace DerivedFrom

variable {ontology : Ontology} (derived : ontology.DerivedFrom schema)
include derived

/-- A type with fields that is asked about has an entity type in the ontology. -/
theorem exists_entity? {type : SchemaType} (isType : type ∈ schema.types)
    (composite : type.kind.isComposite = true) (domain : schema.isDomainType type = true) :
    ∃ entity, ontology.entity? type.name = some entity := by
  obtain ⟨entity, member, named⟩ := exists_mem_entitiesOf isType composite domain
  rw [← derived.entities] at member
  exact Option.isSome_iff_exists.mp
    (List.find?_isSome.mpr ⟨entity, member, beq_iff_eq.mpr named⟩)

/-- A field with values of a type that is asked about has a property in the ontology. -/
theorem exists_property? {type : SchemaType} (isType : type ∈ schema.types)
    (domain : schema.isDomainType type = true) {field : OutputField}
    (isField : field ∈ schema.leafFields type) :
    ∃ property, ontology.property? field.name = some property := by
  obtain ⟨property, member, named⟩ := exists_mem_propertiesOf isType domain isField
  rw [← derived.properties] at member
  exact Option.isSome_iff_exists.mp
    (List.find?_isSome.mpr ⟨property, member, beq_iff_eq.mpr named⟩)

/-- The relationship of a name is made of all fields of that name. -/
theorem relation?_eq (name : String) :
    ontology.relation? name = relationOf (entitiesOf schema) name
      ((relationFields schema).filter fun (_, field) => field.name == name) := by
  rw [Ontology.relation?, derived.relations, find?_relationsOf]

/-- The type of a relationship is decided by the first field of its name. -/
theorem rType_eq {name : String} {relation : RelationshipType}
    (found : ontology.relation? name = some relation) :
    ∃ object field, (relationFields schema).find? (fun (_, field) => field.name == name) =
        some (object, field) ∧ relation.rType = relationType field.type.namedType := by
  rw [derived.relation?_eq] at found
  rw [← List.head?_filter]
  cases fields : (relationFields schema).filter fun (_, field) => field.name == name with
  | nil => rw [fields] at found; contradiction
  | cons first rest =>
    rw [fields] at found
    rw [← Option.some.inj found]
    exact ⟨first.1, first.2, rfl, rfl⟩

/-- A field of an object that leads to an entity is crossed along its relationship. -/
theorem exists_forward {object : SchemaType} {field : OutputField}
    (isField : (object, field) ∈ relationFields schema) :
    ∃ relation, ontology.relation? field.name = some relation ∧
      relation.isDirectional = true ∧ (relation.pairFrom? object.name).isSome = true := by
  have member : (object, field) ∈
      (relationFields schema).filter fun (_, other) => other.name == field.name :=
    List.mem_filter.mpr ⟨isField, beq_self_eq_true _⟩
  rw [derived.relation?_eq]
  cases fields : (relationFields schema).filter fun (_, other) => other.name == field.name with
  | nil => rw [fields] at member; contradiction
  | cons first rest =>
    rw [fields] at member
    refine ⟨_, rfl, rfl, List.find?_isSome.mpr ⟨pairOf (entitiesOf schema) object field, ?_, ?_⟩⟩
    · exact List.mem_map.mpr ⟨(object, field), member, rfl⟩
    · exact beq_self_eq_true _

end DerivedFrom

end Ontology

end TraversalQuery
