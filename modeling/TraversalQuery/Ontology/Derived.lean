import TraversalQuery.Ontology.Basic
import TraversalQuery.Schema.Basic
import TraversalQuery.Schema.Filter
import TraversalQuery.Text.Split

/-!
# The ontology of a schema

An ontology can be read off a schema. Interfaces become abstract entity types and objects entity
types; fields with values become properties; a field that leads to an entity becomes a relationship
named for it, with a pair for each object that declares it. Enums become enumerated types and
scalars primitive types.

Types that belong to the query language and not to what is asked about stay out: root types, the
types of filters, types with names in `__`, and types marked `@autoGen`.
-/

namespace TraversalQuery

/-- Why a schema has no ontology: types that queries need are missing. -/
structure OntologyError where
  missingTypes : List String
deriving DecidableEq, Inhabited, Repr

namespace OntologyError

/-- Why a schema has no ontology, in words. -/
def message (error : OntologyError) : String :=
  "schema does not declare the query language types: missing " ++
    ", ".intercalate error.missingTypes

end OntologyError

namespace Schema

/-- The types that queries need and a schema lacks. -/
def missingLanguageTypes (schema : Schema) : List String :=
  (Filter.typeNames.filter fun name => (schema.get? name).isNone) ++
    if (schema.rootType? .query).isNone then [schema.queryTypeName] else []

/-- Whether a type belongs to what is asked about. -/
def isDomainType (schema : Schema) (type : SchemaType) : Bool :=
  !Text.startsWith "__" type.name && !Filter.isFilterType type.name &&
    !schema.isRootType type.name && (findDirective? type.directives "autoGen").isNone

/-- The types of a kind that belong to what is asked about. -/
def domainTypes (schema : Schema) (kind : TypeKind) : List SchemaType :=
  schema.types.filter fun type => type.kind == kind && schema.isDomainType type

/-- The names of the types of entities. -/
def entityNames (schema : Schema) : List String :=
  (schema.types.filter fun type => type.kind.isComposite && schema.isDomainType type).map (·.name)

/-- The fields of a type that have values. -/
def leafFields (schema : Schema) (type : SchemaType) : List OutputField :=
  type.fields.filter fun field => (schema.kindOf? field.type).any TypeKind.isLeaf

/-- The name of the type of a property: that of an enum as it is, that of a scalar in lower case,
and that of a list in brackets. -/
def valueTypeName (schema : Schema) : TypeRef → String
  | .nonNull inner => schema.valueTypeName inner
  | .list inner => "[" ++ schema.valueTypeName inner ++ "]"
  | .named name =>
    if (schema.get? name).any (·.kind == .enum) then name else name.toLower

end Schema

namespace TypeRef

/-- Whether values of a type are ids. -/
def isId : TypeRef → Bool
  | .nonNull inner => inner.isId
  | .named name => name == "ID"
  | .list _ => false

end TypeRef

namespace Ontology

/-- The types that every ontology has for values. -/
def builtinPrimitives : List String :=
  ["id", "boolean", "int", "long", "string", "text", "float", "time", "date", "datetime", "ip",
    "geopoint", "json"]

/-- Adds a text to a list that does not have it. -/
def addNew (texts : List String) (text : String) : List String :=
  if texts.contains text then texts else texts ++ [text]

/-- The types of values: those that every ontology has, then the scalars of a schema. -/
def primitivesOf (schema : Schema) : List String :=
  ((schema.types.filter (·.kind == .scalar)).map (·.name.toLower)).foldl addNew builtinPrimitives

/-- The entity type of an interface, or of an object without its ids and parents. -/
def entityOf (schema : Schema) (type : SchemaType) (isAbstract : Bool) : EntityType :=
  let fields := schema.leafFields type
  { eType := type.name
    name := type.name
    properties := fields.map (·.name)
    idFields := []
    display := []
    mandatory := (fields.filter (·.type.isNonNull)).map (·.name)
    parentTypes := []
    isAbstract := isAbstract }

/-- The abstract entity types, one for each interface. -/
def abstractEntities (schema : Schema) : List EntityType :=
  (schema.domainTypes .interface).map (entityOf schema · true)

/-- The entity type of an object. Its id is the first field that holds one, and its parents are
those of its interfaces that are entity types so far. -/
def objectEntity (schema : Schema) (soFar : List EntityType) (object : SchemaType) : EntityType :=
  { entityOf schema object false with
    idFields := ((object.fields.find? (·.type.isId)).map (·.name)).toList
    parentTypes := object.interfaces.filter fun interface => soFar.any (·.name == interface) }

/-- Entity types with those of objects, one after another. -/
def addObjects (schema : Schema) (objects : List SchemaType) (soFar : List EntityType) :
    List EntityType :=
  objects.foldl (fun soFar object => soFar ++ [objectEntity schema soFar object]) soFar

/-- The entity types of a schema, abstract ones first. -/
def entitiesOf (schema : Schema) : List EntityType :=
  addObjects schema (schema.domainTypes .object) (abstractEntities schema)

/-- The type of the relationships that lead to a type. -/
def relationType (target : String) : String :=
  if Text.startsWith "has_" target then target else "has_" ++ target

/-- The field that holds the ids of the entities of a type. -/
def idFieldOf (entities : List EntityType) (name : String) : String :=
  ((entities.find? (·.name == name)).map EntityType.idField).getD ""

/-- The name of the pair of a field: the one that the field is marked with, or the default. -/
def pairName (object : SchemaType) (field : OutputField) : String :=
  match (findDirective? field.directives "relation").bind (·.argument? "name") with
  | some (.string name) => name
  | _ => EntityPair.defaultName object.name field.type.namedType

/-- The pair that a field of an object contributes to a relationship. How many entities side A has
cannot be told from the field. -/
def pairOf (entities : List EntityType) (object : SchemaType) (field : OutputField) : EntityPair :=
  let target := field.type.namedType
  { name := pairName object field
    multiplicity := if field.type.isList then .oneToMany else .oneToOne
    sideAType := object.name
    sideAField := field.name
    sideAId := idFieldOf entities object.name
    sideBType := target
    sideBId := idFieldOf entities target }

/-- Adds a pair to the relationship of a name, or a relationship with the pair. The first field of a
name decides the type of the relationship. -/
def addPair (name rType : String) (pair : EntityPair) :
    List RelationshipType → List RelationshipType
  | [] => [⟨name, rType, true, [pair], []⟩]
  | relation :: rest =>
    if relation.name = name then { relation with pairs := relation.pairs ++ [pair] } :: rest
    else relation :: addPair name rType pair rest

/-- The fields of objects that lead to entities, each with its object. -/
def relationFields (schema : Schema) : List (SchemaType × OutputField) :=
  (schema.domainTypes .object).flatMap fun object =>
    (object.fields.filter fun field => schema.entityNames.contains field.type.namedType).map
      (object, ·)

/-- The relationship types of a schema. -/
def relationsOf (schema : Schema) : List RelationshipType :=
  let entities := entitiesOf schema
  (relationFields schema).foldl (fun relations (object, field) =>
    addPair field.name (relationType field.type.namedType) (pairOf entities object field)
      relations) []

/-- Adds a property type unless there is one of its name. -/
def addProperty (properties : List PropertyType) (property : PropertyType) : List PropertyType :=
  if properties.any (·.name == property.name) then properties else properties ++ [property]

/-- The property types of a schema, those of interfaces first. The first field of a name decides
the type of its values. -/
def propertiesOf (schema : Schema) : List PropertyType :=
  let fields := (schema.domainTypes .interface ++ schema.domainTypes .object).flatMap
    schema.leafFields
  (fields.map fun field => ⟨field.name, field.name, schema.valueTypeName field.type⟩).foldl
    addProperty []

/-- The enumerated types of a schema. -/
def enumeratedTypesOf (schema : Schema) : List EnumeratedType :=
  (schema.domainTypes .enum).map fun type => ⟨type.name, type.enumValues⟩

/-- The ontology of a schema, under a name. -/
def ofSchema (name : String) (schema : Schema) : Except OntologyError Ontology :=
  match schema.missingLanguageTypes with
  | [] =>
    .ok
      { name := name
        entityTypes := entitiesOf schema
        relationshipTypes := relationsOf schema
        properties := propertiesOf schema
        enumeratedTypes := enumeratedTypesOf schema
        primitiveTypes := primitivesOf schema }
  | missing => .error ⟨missing⟩

end Ontology

end TraversalQuery
