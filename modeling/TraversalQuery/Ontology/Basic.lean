/-!
# Ontologies

An ontology names what a traversal is about: entities with their properties, relationships between
them, and the types of property values. Names are looked up in the order in which they stand; where
a name repeats, the first counts.
-/

namespace TraversalQuery

/-- A type of entity. -/
structure EntityType where
  eType : String
  name : String
  properties : List String
  idFields : List String
  display : List String
  mandatory : List String
  parentTypes : List String
  isAbstract : Bool
deriving DecidableEq, Inhabited, Repr

namespace EntityType

/-- The field that holds the id of an entity of a type that names none. -/
def defaultIdField : String := "id"

/-- The field that holds the id of an entity. -/
def idField (entity : EntityType) : String :=
  entity.idFields.head?.getD defaultIdField

/-- Whether an entity has a property. -/
def hasProperty (entity : EntityType) (name : String) : Bool :=
  entity.properties.contains name

end EntityType

/-- How many entities the two sides of a relationship have. -/
inductive Multiplicity where
  | oneToOne
  | oneToMany
  | manyToMany
deriving DecidableEq, Inhabited, Repr

/-- Two types of entity between which a relationship holds, with the field on side A that leads to
side B and the id fields of both. -/
structure EntityPair where
  name : String
  multiplicity : Multiplicity
  sideAType : String
  sideAField : String
  sideAId : String
  sideBType : String
  sideBId : String
deriving DecidableEq, Inhabited, Repr

namespace EntityPair

/-- The name of a pair that is not given one. -/
def defaultName (sideA sideB : String) : String :=
  s!"{sideA}->{sideB}"

end EntityPair

/-- A type of relationship. -/
structure RelationshipType where
  name : String
  rType : String
  isDirectional : Bool
  pairs : List EntityPair
  properties : List String
deriving DecidableEq, Inhabited, Repr

namespace RelationshipType

/-- The first pair with an entity type on side A. -/
def pairFrom? (relation : RelationshipType) (entity : String) : Option EntityPair :=
  relation.pairs.find? (·.sideAType == entity)

/-- The first pair with an entity type on side B. -/
def pairTo? (relation : RelationshipType) (entity : String) : Option EntityPair :=
  relation.pairs.find? (·.sideBType == entity)

end RelationshipType

/-- A type of property, with the name of the type of its values. -/
structure PropertyType where
  name : String
  pType : String
  valueType : String
deriving DecidableEq, Inhabited, Repr

/-- A type with finitely many named values. -/
structure EnumeratedType where
  name : String
  values : List String
deriving DecidableEq, Inhabited, Repr

/-- An ontology. -/
structure Ontology where
  name : String
  entityTypes : List EntityType
  relationshipTypes : List RelationshipType
  properties : List PropertyType
  enumeratedTypes : List EnumeratedType
  primitiveTypes : List String
deriving DecidableEq, Inhabited, Repr

namespace Ontology

/-- The entity type of a name. -/
def entity? (ontology : Ontology) (name : String) : Option EntityType :=
  ontology.entityTypes.find? (·.name == name)

/-- The relationship type of a name. -/
def relation? (ontology : Ontology) (name : String) : Option RelationshipType :=
  ontology.relationshipTypes.find? (·.name == name)

/-- The first relationship type with the type name `rType`. -/
def relationOfType? (ontology : Ontology) (rType : String) : Option RelationshipType :=
  ontology.relationshipTypes.find? (·.rType == rType)

/-- The property type of a name. -/
def property? (ontology : Ontology) (name : String) : Option PropertyType :=
  ontology.properties.find? (·.name == name)

/-- The enumerated type of a name. -/
def enumeratedType? (ontology : Ontology) (name : String) : Option EnumeratedType :=
  ontology.enumeratedTypes.find? (·.name == name)

/-- The relationship types that lead on from an entity type. -/
def relationsFrom (ontology : Ontology) (entity : String) : List RelationshipType :=
  ontology.relationshipTypes.filter fun relation => (relation.pairFrom? entity).isSome

end Ontology

end TraversalQuery
