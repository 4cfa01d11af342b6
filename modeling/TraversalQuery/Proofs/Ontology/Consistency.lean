import TraversalQuery.Proofs.Ontology.Coverage
import TraversalQuery.Proofs.Schema.Compiled

/-!
# Derived ontologies are consistent

Everything in an ontology is looked up by its name, and what it has is read off a schema in passes
that use each other's names. For a compiled schema the names are distinct in each of its lists and
lead to what they are meant for. A field that leads from an object to an entity has one pair, in the
relationship of its name: a type has no two fields of one name, and no two types have one name.
-/

namespace TraversalQuery

variable {schema : Schema} {ontology : Ontology}

/-- An entity type that stands for a type of a schema. Its properties are the fields with values,
its parents are abstract, and what it names is there. -/
structure EntityType.StandsFor (entity : EntityType) (type : SchemaType) (schema : Schema)
    (ontology : Ontology) : Prop where
  name : entity.name = type.name
  abstract : entity.isAbstract = true ↔ type.kind = .interface
  properties : entity.properties = (schema.leafFields type).map (·.name)
  mandatory : entity.mandatory ⊆ entity.properties
  ids : entity.idFields ⊆ entity.properties
  parents : ∀ name ∈ entity.parentTypes,
    ∃ parent, ontology.entity? name = some parent ∧ parent.isAbstract = true
  known : ∀ name ∈ entity.properties, ∃ property, ontology.property? name = some property

/-- A pair that stands for a field of an object: it leads from the object to the type of the field,
to many entities if the field is a list, and has the id fields of both. -/
structure EntityPair.StandsFor (pair : EntityPair) (object : SchemaType) (field : OutputField)
    (ontology : Ontology) : Prop where
  sideAType : pair.sideAType = object.name
  sideAField : pair.sideAField = field.name
  sideBType : pair.sideBType = field.type.namedType
  multiplicity : pair.multiplicity = if field.type.isList then .oneToMany else .oneToOne
  sideAId : (ontology.entity? object.name).map (·.idField) = some pair.sideAId
  sideBId : (ontology.entity? field.type.namedType).map (·.idField) = some pair.sideBId

/-- An ontology that has the types of a schema that are asked about, and their fields, each of them
once and nothing else. -/
structure Ontology.Consistent (ontology : Ontology) (schema : Schema) : Prop where
  entities : List.Forall₂ (fun entity type => EntityType.StandsFor entity type schema ontology)
    ontology.entityTypes (schema.domainTypes .interface ++ schema.domainTypes .object)
  entityNames : (ontology.entityTypes.map (·.name)).Nodup
  propertyNames : (ontology.properties.map (·.name)).Nodup
  relationNames : (ontology.relationshipTypes.map (·.name)).Nodup
  pairs : ∀ object ∈ schema.domainTypes .object, ∀ field ∈ object.fields,
    field.type.namedType ∈ schema.entityNames →
      ∃ relation pair, ontology.relation? field.name = some relation ∧
        relation.pairs.filter (·.sideAType == object.name) = [pair] ∧
        pair.StandsFor object field ontology
  noOthers : ∀ relation ∈ ontology.relationshipTypes, ∀ pair ∈ relation.pairs,
    ∃ object ∈ schema.domainTypes .object, ∃ field ∈ object.fields,
      field.type.namedType ∈ schema.entityNames ∧ field.name = relation.name ∧
      pair.StandsFor object field ontology

namespace Ontology

/-- A text is added only where it is new, so texts stay distinct. -/
theorem nodup_addNew {texts : List String} (distinct : texts.Nodup) (text : String) :
    (addNew texts text).Nodup := by
  unfold addNew
  split
  · exact distinct
  · rename_i fresh
    refine List.nodup_append.mpr ⟨distinct, List.nodup_singleton _, fun other member _ same => ?_⟩
    rintro rfl
    exact fresh (List.contains_iff_mem.mpr (List.mem_singleton.mp same ▸ member))

/-- Names stay distinct if every step adds one that is not there. -/
theorem nodup_names_foldl {α β : Type} {name : β → String} {step : List β → α → List β}
    (key : α → String)
    (adds : ∀ items item, (step items item).map name = addNew (items.map name) (key item))
    (added : List α) : ∀ {items : List β}, (items.map name).Nodup →
      ((added.foldl step items).map name).Nodup := by
  induction added with
  | nil => exact id
  | cons first rest ih =>
    intro items distinct
    exact ih (adds items first ▸ nodup_addNew distinct _)

/-- Adding a property adds its name if it is new. -/
theorem names_addProperty (properties : List PropertyType) (property : PropertyType) :
    (addProperty properties property).map (·.name) =
      addNew (properties.map (·.name)) property.name := by
  have known : properties.any (·.name == property.name) =
      (properties.map (·.name)).contains property.name := by
    rw [Bool.eq_iff_iff]
    simp
  unfold addProperty addNew
  rw [known]
  split
  · rfl
  · rw [List.map_append, List.map_singleton]

/-- Adding a pair adds the name of its relationship if it is new. -/
theorem names_addPair (name rType : String) (pair : EntityPair)
    (relations : List RelationshipType) :
    (addPair name rType pair relations).map (·.name) = addNew (relations.map (·.name)) name := by
  induction relations with
  | nil => rfl
  | cons relation rest ih =>
    unfold addPair
    by_cases here : relation.name = name
    · simp [here, addNew]
    · rw [if_neg here, List.map_cons, ih]
      unfold addNew
      by_cases later : name ∈ rest.map (·.name)
      · simp [later]
      · simp [later, Ne.symm here]

/-- No two properties of a derived ontology have one name. -/
theorem nodup_names_propertiesOf : ((propertiesOf schema).map (·.name)).Nodup :=
  nodup_names_foldl _ names_addProperty _ List.nodup_nil

/-- No two relationships of a derived ontology have one name. -/
theorem nodup_names_relationsOf : ((relationsOf schema).map (·.name)).Nodup :=
  nodup_names_foldl (fun field : SchemaType × OutputField => field.2.name)
    (fun _ _ => names_addPair _ _ _ _) _ List.nodup_nil

/-- The fields with values are those of a type without fields. -/
theorem mem_leafFields {type : SchemaType} {field : OutputField} :
    field ∈ schema.leafFields type ↔ field ∈ type.fields ∧
      ∃ output, schema.get? field.type.namedType = some output ∧ output.kind.isLeaf = true := by
  rw [Schema.leafFields, List.mem_filter, Schema.kindOf?]
  cases schema.get? field.type.namedType <;> simp

/-- Ids are of the scalar type of ids, nullable or not. -/
theorem namedType_of_isId {type : TypeRef} (isId : type.isId = true) : type.namedType = "ID" := by
  induction type with
  | named name => exact beq_iff_eq.mp isId
  | nonNull inner ih => exact ih isId
  | list inner => contradiction

/-- A field that holds an id has a value. -/
theorem isLeaf_of_isId (compiled : schema.Compiled) {type : SchemaType} {field : OutputField}
    (isField : field ∈ type.fields) (isId : field.type.isId = true) :
    field ∈ schema.leafFields type := by
  refine mem_leafFields.mpr ⟨isField, .scalar "ID", ?_, rfl⟩
  rw [namedType_of_isId isId]
  exact compiled.get?_scalar (by decide)

/-- No two types that are asked about have one name. -/
theorem nodup_domainTypes (compiled : schema.Compiled) :
    ((schema.domainTypes .interface ++ schema.domainTypes .object).map (·.name)).Nodup := by
  have each (kind : TypeKind) : ((schema.domainTypes kind).map (·.name)).Nodup :=
    compiled.nodup_names.sublist (List.filter_sublist.map _)
  rw [List.map_append]
  refine List.nodup_append.mpr ⟨each _, each _, fun name isInterface other isObject => ?_⟩
  rintro rfl
  obtain ⟨interface, member, rfl⟩ := List.mem_map.mp isInterface
  obtain ⟨object, member', same⟩ := List.mem_map.mp isObject
  obtain ⟨isType, kind, _⟩ := mem_domainTypes.mp member
  obtain ⟨isType', kind', _⟩ := mem_domainTypes.mp member'
  obtain rfl := List.inj_on_of_nodup_map compiled.nodup_names isType' isType same
  rw [kind] at kind'
  contradiction

/-- An object has the same parents whether objects were made entity types before it or not: what it
implements are interfaces. -/
theorem objectEntity_append (compiled : schema.Compiled) {object : SchemaType}
    (isObject : object ∈ schema.domainTypes .object) (soFar : List EntityType)
    {others : List EntityType}
    (objects : ∀ entity ∈ others, ∃ other ∈ schema.domainTypes .object, other.name = entity.name) :
    objectEntity schema (soFar ++ others) object = objectEntity schema soFar object := by
  have none : ∀ interface ∈ object.interfaces, others.any (·.name == interface) = false := by
    intro interface member
    obtain ⟨type, found, isInterface⟩ :=
      (compiled.closed.types object (mem_domainTypes.mp isObject).1).interfaces interface member
    rw [← Bool.not_eq_true, List.any_eq_true]
    rintro ⟨entity, isOther, same⟩
    obtain ⟨other, isObject', named⟩ := objects entity isOther
    obtain ⟨isType, kind, _⟩ := mem_domainTypes.mp isObject'
    rw [← eq_of_beq same, ← named, compiled.get?_name isType] at found
    obtain rfl := Option.some.inj found
    rw [kind] at isInterface
    contradiction
  have parents : (object.interfaces.filter fun interface =>
      (soFar ++ others).any (·.name == interface)) =
        object.interfaces.filter fun interface => soFar.any (·.name == interface) := by
    refine List.filter_congr fun interface member => ?_
    rw [List.any_append, none interface member, Bool.or_false]
  unfold objectEntity
  rw [parents]

/-- Objects of a compiled schema become entity types independently of each other. -/
theorem addObjects_append (compiled : schema.Compiled) {objects : List SchemaType}
    (areObjects : ∀ object ∈ objects, object ∈ schema.domainTypes .object)
    (soFar : List EntityType) :
    ∀ {others : List EntityType},
      (∀ entity ∈ others, ∃ other ∈ schema.domainTypes .object, other.name = entity.name) →
        addObjects schema objects (soFar ++ others) =
          soFar ++ others ++ objects.map (objectEntity schema soFar) := by
  induction objects with
  | nil => exact fun _ => (List.append_nil _).symm
  | cons object rest ih =>
    intro others made
    obtain ⟨isObject, areObjects⟩ := List.forall_mem_cons.mp areObjects
    change addObjects schema rest
      (soFar ++ others ++ [objectEntity schema (soFar ++ others) object]) = _
    rw [objectEntity_append compiled isObject soFar made, List.append_assoc, ih areObjects]
    · simp only [List.append_assoc, List.singleton_append, List.map_cons]
    · exact List.forall_mem_append.mpr
        ⟨made, List.forall_mem_singleton.mpr ⟨object, isObject, rfl⟩⟩

/-- The parents of objects in a compiled schema are the abstract entity types among their
interfaces. -/
theorem entitiesOf_eq (compiled : schema.Compiled) :
    entitiesOf schema = abstractEntities schema ++
      (schema.domainTypes .object).map (objectEntity schema (abstractEntities schema)) := by
  have added := addObjects_append compiled (fun _ => id) (abstractEntities schema)
    (List.forall_mem_nil _)
  rwa [List.append_nil] at added

/-- A field of an object is told by its name and that of the object. -/
theorem nodup_relationFields (compiled : schema.Compiled) :
    ((relationFields schema).map fun (object, field) => (object.name, field.name)).Nodup := by
  have objects : ((schema.domainTypes .object).map (·.name)).Nodup :=
    compiled.nodup_names.sublist (List.filter_sublist.map _)
  rw [relationFields, List.map_flatMap, List.nodup_flatMap]
  simp only [List.map_map]
  constructor
  · intro object isObject
    have distinct := (compiled.closed.types object (mem_domainTypes.mp isObject).1).distinct
    have kept : (((object.fields.filter fun field =>
        schema.entityNames.contains field.type.namedType).map (·.name)).map
          fun name => (object.name, name)).Nodup :=
      (distinct.sublist (List.filter_sublist.map _)).map fun _ _ same => congrArg Prod.snd same
    rwa [List.map_map] at kept
  · refine (List.pairwise_map.mp objects).imp fun different => ?_
    intro key first second
    obtain ⟨field, _, rfl⟩ := List.mem_map.mp first
    obtain ⟨other, _, same⟩ := List.mem_map.mp second
    exact different (congrArg Prod.fst same).symm

/-- Entities are named after the interfaces and objects that are asked about. -/
theorem mem_entityNames {name : String} : name ∈ schema.entityNames ↔
    name ∈ (schema.domainTypes .interface ++ schema.domainTypes .object).map (·.name) := by
  simp only [Schema.entityNames, List.mem_map, List.mem_append, mem_domainTypes, List.mem_filter,
    Bool.and_eq_true]
  constructor
  · rintro ⟨type, ⟨isType, composite, domain⟩, rfl⟩
    refine ⟨type, ?_, rfl⟩
    cases kind : type.kind with
    | interface => exact .inl ⟨isType, kind ▸ rfl, domain⟩
    | object => exact .inr ⟨isType, kind ▸ rfl, domain⟩
    | _ =>
      rw [kind] at composite
      contradiction
  · rintro ⟨type, ⟨isType, kind, domain⟩ | ⟨isType, kind, domain⟩, rfl⟩
    · exact ⟨type, ⟨isType, kind ▸ rfl, domain⟩, rfl⟩
    · exact ⟨type, ⟨isType, kind ▸ rfl, domain⟩, rfl⟩

namespace DerivedFrom

variable (derived : ontology.DerivedFrom schema)
include derived

/-- A derived ontology names its entity types after interfaces and then objects. -/
theorem names_entityTypes : ontology.entityTypes.map (·.name) =
    (schema.domainTypes .interface ++ schema.domainTypes .object).map (·.name) := by
  rw [derived.entities, names_entitiesOf]

/-- The id field that a pair takes from the entities is that of the entity of the name. -/
theorem idField_eq {name : String} (isEntity : name ∈ schema.entityNames) :
    (ontology.entity? name).map (·.idField) = some (idFieldOf (entitiesOf schema) name) := by
  rw [mem_entityNames, ← derived.names_entityTypes] at isEntity
  obtain ⟨entity, member, named⟩ := List.mem_map.mp isEntity
  obtain ⟨found, isFound⟩ : ∃ found, ontology.entity? name = some found :=
    Option.isSome_iff_exists.mp (List.find?_isSome.mpr ⟨entity, member, beq_iff_eq.mpr named⟩)
  have here : (entitiesOf schema).find? (·.name == name) = some found :=
    derived.entities ▸ isFound
  rw [isFound, idFieldOf, here]
  rfl

/-- The pair that is read off a field stands for it. -/
theorem standsFor_pairOf {object : SchemaType} {field : OutputField}
    (isField : (object, field) ∈ relationFields schema) :
    (pairOf (entitiesOf schema) object field).StandsFor object field ontology := by
  obtain ⟨isObject, _, leads⟩ := mem_relationFields.mp isField
  exact
    { sideAType := rfl
      sideAField := rfl
      sideBType := rfl
      multiplicity := rfl
      sideAId := derived.idField_eq
        (mem_entityNames.mpr (List.mem_map_of_mem (List.mem_append_right _ isObject)))
      sideBId := derived.idField_eq leads }

/-- The pairs of a relationship are those of the fields of its name. -/
theorem pairs_eq {name : String} {relation : RelationshipType}
    (found : ontology.relation? name = some relation) :
    relation.pairs = ((relationFields schema).filter fun (_, field) => field.name == name).map
      fun (object, field) => pairOf (entitiesOf schema) object field := by
  rw [derived.relation?_eq] at found
  cases fields : (relationFields schema).filter fun (_, field) => field.name == name with
  | nil =>
    rw [fields] at found
    contradiction
  | cons first rest =>
    rw [fields] at found
    rw [← Option.some.inj found]

/-- A field has one pair among those of its object. -/
theorem pairs_from_eq (compiled : schema.Compiled) {object : SchemaType} {field : OutputField}
    (isField : (object, field) ∈ relationFields schema) {relation : RelationshipType}
    (found : ontology.relation? field.name = some relation) :
    relation.pairs.filter (·.sideAType == object.name) =
      [pairOf (entitiesOf schema) object field] := by
  have only := List.filter_key_eq_singleton (nodup_relationFields compiled) isField
  rw [derived.pairs_eq found, List.filter_map, List.filter_filter]
  exact congrArg (List.map fun (object, field) => pairOf (entitiesOf schema) object field) only

/-- Every field with values of a type that is asked about is a property of the ontology. -/
theorem exists_known {type : SchemaType} {kind : TypeKind}
    (isType : type ∈ schema.domainTypes kind) :
    ∀ name ∈ (schema.leafFields type).map (·.name),
      ∃ property, ontology.property? name = some property := by
  intro name member
  obtain ⟨field, isField, rfl⟩ := List.mem_map.mp member
  obtain ⟨isType, _, domain⟩ := mem_domainTypes.mp isType
  exact derived.exists_property? isType domain isField

/-- The parents of an object are found, since interfaces come before objects. -/
theorem exists_parent (compiled : schema.Compiled) {name : String}
    (isAbstract : (abstractEntities schema).any (·.name == name) = true) :
    ∃ parent, ontology.entity? name = some parent ∧ parent.isAbstract = true := by
  obtain ⟨parent, first⟩ :
      ∃ parent, (abstractEntities schema).find? (·.name == name) = some parent :=
    Option.isSome_iff_exists.mp (List.find?_isSome.mpr (List.any_eq_true.mp isAbstract))
  refine ⟨parent, ?_, ?_⟩
  · rw [Ontology.entity?, derived.entities, entitiesOf_eq compiled, List.find?_append, first,
      Option.some_or]
  · obtain ⟨interface, _, rfl⟩ := List.mem_map.mp (List.mem_of_find?_eq_some first)
    rfl

/-- The entity type of an interface stands for it. -/
theorem standsFor_interface {interface : SchemaType}
    (isInterface : interface ∈ schema.domainTypes .interface) :
    (entityOf schema interface true).StandsFor interface schema ontology where
  name := rfl
  abstract := iff_of_true rfl (mem_domainTypes.mp isInterface).2.1
  properties := rfl
  mandatory := (List.filter_sublist.map _).subset
  ids := List.nil_subset _
  parents := List.forall_mem_nil _
  known := derived.exists_known isInterface

/-- The entity type of an object stands for it. -/
theorem standsFor_object (compiled : schema.Compiled) {object : SchemaType}
    (isObject : object ∈ schema.domainTypes .object) :
    (objectEntity schema (abstractEntities schema) object).StandsFor object schema ontology where
  name := rfl
  abstract := by
    rw [(mem_domainTypes.mp isObject).2.1]
    exact iff_of_false nofun nofun
  properties := rfl
  mandatory := (List.filter_sublist.map _).subset
  ids := by
    intro name member
    obtain ⟨field, first, rfl⟩ := Option.map_eq_some_iff.mp (Option.mem_toList.mp member)
    have isId : field.type.isId = true := by simpa using List.find?_some first
    exact List.mem_map_of_mem (isLeaf_of_isId compiled (List.mem_of_find?_eq_some first) isId)
  parents := fun _ isParent => derived.exists_parent compiled (List.mem_filter.mp isParent).2
  known := derived.exists_known isObject

/-- Entity types stand for types in the order in which they are made: interfaces, then objects. -/
theorem standsFor_entities (compiled : schema.Compiled) :
    List.Forall₂ (fun entity type => EntityType.StandsFor entity type schema ontology)
      ontology.entityTypes (schema.domainTypes .interface ++ schema.domainTypes .object) := by
  rw [derived.entities, entitiesOf_eq compiled]
  refine List.rel_append ?_ ?_
  · exact List.forall₂_map_left_iff.mpr (List.forall₂_same.mpr fun _ => derived.standsFor_interface)
  · exact List.forall₂_map_left_iff.mpr
      (List.forall₂_same.mpr fun _ => derived.standsFor_object compiled)

end DerivedFrom

/-- **A derived ontology is consistent.** Its entity types are the interfaces and objects that are
asked about, its names are distinct, and each field that leads from an object to an entity has
exactly one pair, which stands in the relationship of its name and has the right id fields. -/
theorem consistent_of_ofSchema (compiled : schema.Compiled) {name : String}
    (made : ofSchema name schema = .ok ontology) : ontology.Consistent schema := by
  have derived := derivedFrom_of_ofSchema made
  refine
    { entities := derived.standsFor_entities compiled
      entityNames := derived.names_entityTypes ▸ nodup_domainTypes compiled
      propertyNames := derived.properties ▸ nodup_names_propertiesOf
      relationNames := derived.relations ▸ nodup_names_relationsOf
      pairs := fun object isObject field isField leads => ?_
      noOthers := fun relation isRelation pair isPair => ?_ }
  · have isField := mem_relationFields.mpr ⟨isObject, isField, leads⟩
    obtain ⟨relation, found, _⟩ := derived.exists_forward isField
    exact ⟨relation, _, found, derived.pairs_from_eq compiled isField found,
      derived.standsFor_pairOf isField⟩
  · have found : ontology.relation? relation.name = some relation :=
      List.find?_key_eq_some (derived.relations ▸ nodup_names_relationsOf) isRelation
    rw [derived.pairs_eq found] at isPair
    obtain ⟨⟨object, field⟩, member, rfl⟩ := List.mem_map.mp isPair
    obtain ⟨isField, named⟩ := List.mem_filter.mp member
    obtain ⟨isObject, isOwn, leads⟩ := mem_relationFields.mp isField
    exact ⟨object, isObject, field, isOwn, leads, beq_iff_eq.mp named,
      derived.standsFor_pairOf isField⟩

/-- A schema in which people and companies have fields of one name that lead to different types. -/
def employersSource : String :=
  "type Query \x7b people: [Person] \x7d
   interface Named \x7b name: String! \x7d
   type Person implements Named \x7b
     name: String! key: ID! friends: [Person] employer: Company \x7d
   type Company implements Named \x7b name: String! friends: [Named] \x7d"

/-- Friendship has a pair for people and one for companies, each with the ids of its sides. -/
theorem consistent_of_ofSchema_employers : ∃ schema ontology,
    Schema.compileWithFilters [employersSource] = .ok schema ∧ schema.Compiled ∧
      ofSchema "people" schema = .ok ontology ∧
      (ontology.relation? "friends").map (·.pairs.map fun pair =>
          (pair.sideAType, pair.sideAId, pair.sideBType, pair.sideBId)) =
        some [("Person", "key", "Person", "key"), ("Company", "id", "Named", "id")] ∧
      ontology.Consistent schema := by
  have ran : (Schema.compileWithFilters [employersSource]).toOption.bind (fun schema =>
      (ofSchema "people" schema).toOption.map fun ontology =>
        (ontology.relation? "friends").map (·.pairs.map fun pair =>
          (pair.sideAType, pair.sideAId, pair.sideBType, pair.sideBId))) =
      some (some [("Person", "key", "Person", "key"), ("Company", "id", "Named", "id")]) := by
    decide +kernel
  obtain ⟨schema, isCompiled, ran⟩ := Option.bind_eq_some_iff.mp ran
  obtain ⟨ontology, made, pairs⟩ := Option.map_eq_some_iff.mp ran
  have isCompiled := Except.of_toOption_eq_some isCompiled
  have compiled : schema.Compiled := ⟨_, .inr isCompiled⟩
  have made := Except.of_toOption_eq_some made
  exact ⟨schema, ontology, isCompiled, compiled, made, pairs, consistent_of_ofSchema compiled made⟩

end Ontology

end TraversalQuery
