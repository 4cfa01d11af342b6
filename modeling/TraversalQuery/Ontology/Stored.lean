import TraversalQuery.Json.Decoder
import TraversalQuery.Ontology.Basic

/-!
# Ontologies as JSON

An ontology is stored as an object, with a member for every field. When it is read back, names have
to be there and everything else may be left out.
-/

namespace TraversalQuery

open Json (Decoder Fields)

namespace Multiplicity

/-- The names under which multiplicities are stored. -/
def storedNames : List (String × Multiplicity) :=
  [("ONE_TO_ONE", .oneToOne), ("ONE_TO_MANY", .oneToMany), ("MANY_TO_MANY", .manyToMany)]

/-- The name under which a multiplicity is stored. -/
def storedName : Multiplicity → String
  | .oneToOne => "ONE_TO_ONE"
  | .oneToMany => "ONE_TO_MANY"
  | .manyToMany => "MANY_TO_MANY"

@[simp] theorem lookup_storedName (multiplicity : Multiplicity) :
    storedNames.lookup multiplicity.storedName = some multiplicity := by
  cases multiplicity <;> rfl

end Multiplicity

namespace EntityType

/-- An entity type as JSON. -/
def json (entity : EntityType) : Json :=
  .object
    [("eType", .string entity.eType), ("name", .string entity.name),
      ("properties", .ofTexts entity.properties), ("idFields", .ofTexts entity.idFields),
      ("display", .ofTexts entity.display), ("mandatory", .ofTexts entity.mandatory),
      ("parentTypes", .ofTexts entity.parentTypes), ("isAbstract", .bool entity.isAbstract)]

/-- The stored form of entity types. -/
def decoder : Decoder EntityType :=
  .record "EntityType" <|
    ((((((((Fields.none EntityType.mk).required "eType" .text).required "name" .text).defaulted
      "properties" (.list .text) []).defaulted "idFields" (.list .text) []).defaulted
        "display" (.list .text) []).defaulted "mandatory" (.list .text) []).defaulted
          "parentTypes" (.list .text) []).defaulted "isAbstract" .flag false

end EntityType

namespace EntityPair

/-- A pair as JSON. -/
def json (pair : EntityPair) : Json :=
  .object
    [("name", .string pair.name), ("referenceType", .string pair.multiplicity.storedName),
      ("sideAType", .string pair.sideAType), ("sideAField", .string pair.sideAField),
      ("sideAId", .string pair.sideAId), ("sideBType", .string pair.sideBType),
      ("sideBId", .string pair.sideBId)]

/-- The stored form of pairs. -/
def decoder : Decoder EntityPair :=
  .record "EPair" <|
    (((((((Fields.none EntityPair.mk).required "name" .text).defaulted
      "referenceType" (.choice Multiplicity.storedNames) .oneToOne).required
        "sideAType" .text).defaulted "sideAField" .text "").defaulted
          "sideAId" .text "").required "sideBType" .text).defaulted "sideBId" .text ""

end EntityPair

namespace RelationshipType

/-- A relationship type as JSON. -/
def json (relation : RelationshipType) : Json :=
  .object
    [("name", .string relation.name), ("rType", .string relation.rType),
      ("directional", .bool relation.isDirectional),
      ("ePairs", .array (relation.pairs.map EntityPair.json)),
      ("properties", .ofTexts relation.properties)]

/-- The stored form of relationship types. -/
def decoder : Decoder RelationshipType :=
  .record "RelationshipType" <|
    (((((Fields.none RelationshipType.mk).required "name" .text).required
      "rType" .text).defaulted "directional" .flag false).defaulted
        "ePairs" (.list EntityPair.decoder) []).defaulted "properties" (.list .text) []

end RelationshipType

namespace PropertyType

/-- A property type as JSON. -/
def json (property : PropertyType) : Json :=
  .object
    [("name", .string property.name), ("pType", .string property.pType),
      ("type", .string property.valueType)]

/-- The stored form of property types. -/
def decoder : Decoder PropertyType :=
  .record "Property" <|
    (((Fields.none PropertyType.mk).required "name" .text).required
      "pType" .text).required "type" .text

end PropertyType

namespace EnumeratedType

/-- An enumerated type as JSON. -/
def json (enumerated : EnumeratedType) : Json :=
  .object [("name", .string enumerated.name), ("values", .ofTexts enumerated.values)]

/-- The stored form of enumerated types. -/
def decoder : Decoder EnumeratedType :=
  .record "EnumeratedType" <|
    ((Fields.none EnumeratedType.mk).required "name" .text).defaulted "values" (.list .text) []

end EnumeratedType

namespace Ontology

/-- An ontology as JSON. -/
def json (ontology : Ontology) : Json :=
  .object
    [("name", .string ontology.name),
      ("entityTypes", .array (ontology.entityTypes.map EntityType.json)),
      ("relationshipTypes", .array (ontology.relationshipTypes.map RelationshipType.json)),
      ("properties", .array (ontology.properties.map PropertyType.json)),
      ("enumeratedTypes", .array (ontology.enumeratedTypes.map EnumeratedType.json)),
      ("primitiveTypes", .ofTexts ontology.primitiveTypes)]

/-- The stored form of ontologies. -/
def decoder : Decoder Ontology :=
  .record "Ontology" <|
    ((((((Fields.none Ontology.mk).required "name" .text).defaulted
      "entityTypes" (.list EntityType.decoder) []).defaulted
        "relationshipTypes" (.list RelationshipType.decoder) []).defaulted
          "properties" (.list PropertyType.decoder) []).defaulted
            "enumeratedTypes" (.list EnumeratedType.decoder) []).defaulted
              "primitiveTypes" (.list .text) []

end Ontology

end TraversalQuery
