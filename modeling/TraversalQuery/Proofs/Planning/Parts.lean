import TraversalQuery.Planning.Planner

/-!
# What fields are in a plan

What a field comes to in a plan does not depend on when it is asked about: a field with a value is a
property that is shown; a field with an object is a step to an entity, perhaps over a relation, and
perhaps with a filter.
-/

namespace TraversalQuery

/-- A filter in a plan: how its tests are combined, and the properties that they test. -/
structure PlannedFilter where
  kind : Quantifier
  fields : List (String × Option Constraint)
deriving DecidableEq, Inhabited, Repr

/-- What a field is in a plan. -/
inductive Part where
  | shown (property : Property)
  | entered (relation? : Option RelationStep) (entity : EntityStep) (filter? : Option PlannedFilter)
deriving DecidableEq, Inhabited, Repr

namespace Part

/-- The filter on the object of a field. -/
def filter? : Part → Option PlannedFilter
  | .shown _ => none
  | .entered _ _ filter? => filter?

end Part

namespace FieldVisit

variable (ontology : Ontology) (visit : FieldVisit)

/-- The step over the relationship of the name of a field that stands inside another. -/
def relationStep? : Option RelationStep :=
  match visit.parent?, ontology.relation? visit.definition.name with
  | some _, some relation =>
    some ⟨relation.rType, relation.directionFrom visit.parentType.name, visit.definition.name⟩
  | _, _ => none

/-- The step to entities of a type, or to the one whose id is among the arguments. -/
def entityStep (entity : EntityType) : EntityStep :=
  ⟨visit.definition.name, entity.name,
    (entity.concreteId? visit.arguments).map (⟨·, entity.displayName? visit.arguments⟩)⟩

/-- The filter that a value writes, its tests in order and each with the type that the ontology has
for its property. -/
def plannedFilter? (value : Json) : Option PlannedFilter :=
  match FilterClause.decode value (visit.path.text ++ "(" ++ FilterClause.argumentName ++ ")") with
  | .ok clause =>
    some ⟨clause.quantifier, clause.constraints.map (Planner.typedConstraint ontology)⟩
  | .error _ => none

/-- What a field with an object is in a plan, when its filter can be read. -/
def enteredPart? (entity : EntityType) : Option Part :=
  match Planner.filterValue? visit.arguments with
  | none => some (.entered (visit.relationStep? ontology) (visit.entityStep entity) none)
  | some value =>
    (visit.plannedFilter? ontology value).map fun filter =>
      .entered (visit.relationStep? ontology) (visit.entityStep entity) (some filter)

/-- What a field is in a plan, when the ontology has names for it. -/
def part? : Option Part :=
  match visit.output? with
  | none => none
  | some output =>
    if output.kind.isComposite then
      (ontology.entity? output.name).bind (visit.enteredPart? ontology)
    else if output.kind.isLeaf then
      (ontology.property? visit.definition.name).map fun property =>
        .shown ⟨.entity, property.pType, .shown⟩
    else none

end FieldVisit

end TraversalQuery
