import TraversalQuery.Json.Basic
import TraversalQuery.Plan.Basic

/-!
# Plans as JSON

A plan is stored as an object with its nodes in a list. Each node is an object with one member,
named for what the node is.
-/

namespace TraversalQuery

namespace Json

/-- The number of a node, or `null` when there is none. -/
def ofId? : Option NodeId → Json
  | none => .null
  | some id => .ofNat id

/-- The numbers of nodes. -/
def ofIds (ids : List NodeId) : Json :=
  .array (ids.map .ofNat)

end Json

namespace ConcreteEntity

/-- An entity as JSON. -/
def json (entity : ConcreteEntity) : Json :=
  .object [("id", .string entity.id), ("display_name", .ofText? entity.displayName?)]

end ConcreteEntity

namespace PropertyScope

/-- What a property belongs to, as JSON. -/
def json : PropertyScope → Json
  | .entity => .string "Entity"
  | .relation => .string "Relation"

end PropertyScope

namespace PropertyUse

/-- What is done with a property, as JSON. -/
def json : PropertyUse → Json
  | .shown => .object [("Projection", .string "Identity")]
  | .tested constraint =>
    .object [("Constraint", .object
      [("op", .string constraint.operator.storedName),
        ("expression", .ofText? constraint.expression?)])]

end PropertyUse

namespace Node

/-- A node as JSON. -/
def json : Node → Json
  | .start next? => .object [("Start", .object [("next", .ofId? next?)])]
  | .entity step next? =>
    .object [("Entity", .object
      [("tag", .string step.tag), ("type_name", .string step.typeName),
        ("concrete", (step.concrete?.map ConcreteEntity.json).getD .null),
        ("next", .ofId? next?)])]
  | .relation step next? =>
    .object [("Relation", .object
      [("rel_type", .string step.relationType), ("direction", .string step.direction.text),
        ("tag", .string step.tag), ("next", .ofId? next?)])]
  | .property held =>
    .object [("Property", .object
      [("scope", held.scope.json), ("p_type", .string held.propertyType),
        ("payload", held.use.json)])]
  | .group kind members =>
    .object [("PropertyGroup", .object
      [("quantifier", .string kind.storedName), ("children", .ofIds members)])]
  | .quantifier kind next =>
    .object [("Quantifier", .object [("kind", .string kind.storedName), ("next", .ofIds next)])]

end Node

namespace Plan

/-- A plan as JSON. -/
def json (plan : Plan) : Json :=
  .object
    [("name", .ofText? plan.name?), ("ontology", .ofText? plan.ontology?),
      ("slots", .array <| plan.slots.map fun slot =>
        .object [("node", slot.node.json), ("parent", .ofId? slot.parent?)])]

end Plan

end TraversalQuery
