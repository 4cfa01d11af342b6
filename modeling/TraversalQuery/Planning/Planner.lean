import TraversalQuery.Planning.FilterClause
import TraversalQuery.Planning.Placeholder
import TraversalQuery.Planning.Positions

/-!
# Planning a query

A planner is a resolver: the walk over a query asks it for every field, and it answers with
placeholders while it builds the plan.

* A field with a value becomes a property that is shown.
* A field with an object becomes a step to an entity, and before it a step over a relation if the
  field is a relationship and stands inside another. With an id among its arguments it leads to the
  one entity of that id.
* A filter becomes a group of tested properties below the nearest quantifier above the entity, or
  below a new one right after it if there is none.

Before the first field inside an object is put into the plan, a quantifier is put after the entity,
so that all fields of an object fan out from it. The root fans out only when a second field comes.
Where to go on is always looked up by the path of the object, so the order in which fields come does
not matter.
-/

namespace TraversalQuery

/-- A plan in the making, and where the fields of objects go. -/
structure Planner where
  builder : Builder
  positions : Positions
deriving Inhabited

/-- An action of a planner. -/
abbrev Planning (α : Type) := ExceptT PlanError (StateM Planner) α

namespace RelationshipType

/-- The way a relationship is crossed from an entity type: along it, unless the entity type stands
only on side B. -/
def directionFrom (relation : RelationshipType) (entity : String) : Direction :=
  if !relation.isDirectional then .either
  else if (relation.pairFrom? entity).isNone && (relation.pairTo? entity).isSome then .backward
  else .forward

end RelationshipType

namespace EntityType

/-- The id among the arguments of a field: a text, or a number as it is written. -/
def concreteId? (entity : EntityType) (arguments : Members) : Option String :=
  match arguments.get? entity.idField with
  | some (.string id) => some id
  | some (.int id) => some (toString id)
  | some (.float id) => some id.dataText
  | _ => none

/-- The first text among the arguments of a field that can be shown for an entity. -/
def displayName? (entity : EntityType) (arguments : Members) : Option String :=
  entity.display.findSome? fun field => (arguments.get? field).bind Json.text?

end EntityType

namespace Planner

/-- Does something with the builder. -/
def building {α : Type} (operation : Build α) : Planning α := do
  let planner ← get
  let (result, builder) := Id.run (operation.run.run planner.builder)
  set { planner with builder := builder }
  match result with
  | .ok value => return value
  | .error error => throw (.building error)

/-- Notes where the fields of an object go. -/
def record (path : ResponsePath) (id : NodeId) : Planning Unit :=
  modify fun planner => { planner with positions := planner.positions.set path id }

/-- A planner whose plan has nothing but its root, where the root fields go. The builder must not
have been started. -/
def ofBuilder (builder : Builder) : Except PlanError Planner :=
  let (result, started) := Id.run (Builder.start.run.run builder)
  match result with
  | .ok start => .ok ⟨started, Positions.empty.set .root start⟩
  | .error error => .error (.building error)

/-- Where the fields of an object go. -/
def position? (planner : Planner) (path : ResponsePath) : Option NodeId :=
  planner.positions.get? path

/-- Makes sure that the fields of the object at a path can fan out: where they go becomes a
quantifier, except that the root waits for its second field. -/
def fanOut (path : ResponsePath) (atRoot : Bool) : Planning Unit := do
  let planner ← get
  match planner.position? path with
  | none => return ()
  | some here =>
    match planner.builder.plan.node? here with
    | none => return ()
    | some node =>
      if node.isQuantifier || (atRoot && node.next.isEmpty) then return ()
      building (Builder.moveTo here)
      record path (← building (Builder.addQuantifier .every))

/-- The step to the entity of a field. -/
def enterEntity (entity : EntityType) (tag : String) (arguments : Members) : Build NodeId :=
  match entity.concreteId? arguments with
  | some id => Builder.enterConcrete ⟨id, entity.displayName? arguments⟩ entity.name tag
  | none => Builder.enterEntity tag entity.name

/-- The step over the relationship of a field inside another, if the field is one. -/
def enterRelation (ontology : Ontology) (visit : FieldVisit) : Planning Unit := do
  let tag := visit.definition.name
  match visit.parent?, ontology.relation? tag with
  | some _, some relation =>
    let direction := relation.directionFrom visit.parentType.name
    let _ ← building (Builder.enterRelation relation.rType direction tag)
  | _, _ => return ()

/-- The quantifier that a filter on an entity goes below: the nearest above it, or a new one. -/
def filterScope (path : ResponsePath) (entered : NodeId) : Planning NodeId := do
  building (Builder.moveTo entered)
  match (← building (Builder.ascend fun _ node => node.isQuantifier)).found? with
  | some quantifier => return quantifier
  | none =>
    building (Builder.moveTo entered)
    let quantifier ← building (Builder.addQuantifier .every)
    record path quantifier
    return quantifier

/-- A test with the type that the ontology has for its property. -/
def typedConstraint (ontology : Ontology) :
    String × Constraint → String × Option Constraint
  | (operand, constraint) =>
    (((ontology.property? operand).map (·.pType)).getD operand, some constraint)

/-- Puts a filter on the entity of a field into the plan. -/
def filter (ontology : Ontology) (visit : FieldVisit) (entity : EntityType) (entered : NodeId)
    (value : Json) : Planning Unit := do
  let site := visit.path.text ++ "(" ++ FilterClause.argumentName ++ ")"
  let clause ← ExceptT.mk (pure (FilterClause.decode value site))
  let unknown := clause.unknownOperands entity.hasProperty
  unless unknown.isEmpty do
    throw (.unknownOperands unknown entity.name visit.path.text)
  let scope ← filterScope visit.path entered
  building (Builder.moveTo scope)
  let _ ← building
    (Builder.addGroup (clause.constraints.map (typedConstraint ontology)) clause.quantifier)

/-- The filter among the arguments of a field. -/
def filterValue? (arguments : Members) : Option Json :=
  (arguments.get? FilterClause.argumentName).filter fun value => !value.isNull

/-- Puts a field with an object into the plan. -/
def enter (ontology : Ontology) (visit : FieldVisit) (target : SchemaType) : Planning Answer := do
  match ontology.entity? target.name with
  | none => throw (.notInOntology .entityType target.name visit.path.text)
  | some entity =>
    enterRelation ontology visit
    let entered ← building (enterEntity entity visit.definition.name visit.arguments)
    record visit.path entered
    match filterValue? visit.arguments with
    | none => return .object
    | some value =>
      filter ontology visit entity entered value
      return .object

/-- Puts a field with a value into the plan. -/
def project (ontology : Ontology) (visit : FieldVisit) (output : SchemaType) :
    Planning Answer := do
  let name := visit.definition.name
  match ontology.property? name with
  | none => throw (.notInOntology .property name visit.path.text)
  | some property =>
    let _ ← building (Builder.addProperty ⟨.entity, property.pType, .shown⟩)
    return .ofValue? (output.placeholder? name)

/-- Puts a field into the plan. A field whose type is not known, or that stands inside an object
that is not in the plan, has no place in it. -/
def resolve (ontology : Ontology) : Resolver Planner PlanError := fun visit => do
  match visit.output? with
  | none => return .null
  | some output =>
    fanOut visit.parentPath visit.parent?.isNone
    match (← get).position? visit.parentPath with
    | none => return .null
    | some anchor =>
      building (Builder.moveTo anchor)
      if output.kind.isComposite then enter ontology visit output
      else if output.kind.isLeaf then project ontology visit output
      else return .null

end Planner

end TraversalQuery
