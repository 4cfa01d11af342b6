import TraversalQuery.Plan.Basic

/-!
# Building a plan

A builder is a plan in the making with a cursor on one of its nodes. What is inserted goes below the
cursor. Steps and quantifiers take the cursor with them; properties and groups leave it where it is.
A node leads on to what is put below it, with one exception: leaves count only below quantifiers.

An operation that fails reports why and leaves the builder as it is at that point.
-/

namespace TraversalQuery

/-- A plan in the making. The cursor is on one of its nodes once building has started. -/
structure Builder where
  plan : Plan
  cursor? : Option NodeId
deriving DecidableEq, Inhabited, Repr

/-- The operations that need a builder to be started. -/
inductive BuilderCall where
  | enterEntity
  | enterConcrete
  | enterRelation
  | addProperty
  | addRelationProperty
  | addGroup
  | addQuantifier
  | moveTo
  | ascend
deriving DecidableEq, Inhabited, Repr

namespace BuilderCall

/-- An operation as messages name it. -/
def text : BuilderCall → String
  | .enterEntity => "enter_entity"
  | .enterConcrete => "enter_concrete_entity"
  | .enterRelation => "enter_relation"
  | .addProperty => "add_property"
  | .addRelationProperty => "add_relation_property"
  | .addGroup => "add_property_group"
  | .addQuantifier => "add_quantifier"
  | .moveTo => "goto_index"
  | .ascend => "ascend_until"

end BuilderCall

/-- Why an operation on a builder fails. -/
inductive BuilderError where
  | notStarted (call : BuilderCall)
  | alreadyStarted
  | unknownNode (id : NodeId)
  | leafCursor (call : BuilderCall) (leaf : NodeId)
  | exhausted
deriving DecidableEq, Inhabited, Repr

namespace BuilderError

/-- What went wrong, in words. -/
def message : BuilderError → String
  | .notStarted call => s!"`{call.text}` called before `start()`"
  | .alreadyStarted => "`start()` called twice"
  | .unknownNode id => s!"no node with id {id}"
  | .leafCursor call leaf => s!"`{call.text}` cannot insert below leaf node {leaf}"
  | .exhausted => "node id space exhausted"

end BuilderError

/-- An operation on a builder. -/
abbrev Build (α : Type) := ExceptT BuilderError (StateM Builder) α

/-- A climb from the cursor towards the root: the node it ended at, if one was accepted, and the
nodes that were asked about on the way. -/
structure Ascent where
  found? : Option NodeId
  asked : List NodeId
deriving DecidableEq, Inhabited, Repr

namespace Plan

/-- The climb from a node to the first that is accepted, over no more than `limit` nodes. -/
def climb (plan : Plan) (accepts : NodeId → Node → Bool) : Nat → NodeId → Ascent
  | 0, _ => ⟨none, []⟩
  | limit + 1, id =>
    match plan.node? id with
    | none => ⟨none, []⟩
    | some node =>
      if accepts id node then ⟨some id, [id]⟩
      else
        match plan.parent? id with
        | none => ⟨none, [id]⟩
        | some parent =>
          let rest := plan.climb accepts limit parent
          { rest with asked := id :: rest.asked }

end Plan

namespace Builder

/-- A builder without nodes. -/
def empty (name? ontology? : Option String) : Builder :=
  ⟨⟨name?, ontology?, []⟩, none⟩

/-- Whether building has started. -/
def isStarted (builder : Builder) : Bool :=
  builder.cursor?.isSome

/-- How many nodes a plan can have: their numbers are 32 bits wide. -/
def capacity : Nat := Nat.pow 2 32

/-- The cursor, for an operation that needs it. -/
def cursor (call : BuilderCall) : Build NodeId := do
  match (← get).cursor? with
  | none => throw (.notStarted call)
  | some here => return here

/-- The cursor, for an operation that puts something below it. -/
def insertionPoint (call : BuilderCall) : Build NodeId := do
  let here ← cursor call
  if ((← get).plan.node? here).any Node.isLeaf then throw (.leafCursor call here)
  return here

/-- Adds a node below another and gives its number. -/
def allocate (node : Node) (parent? : Option NodeId) : Build NodeId := do
  let builder ← get
  if builder.plan.size < capacity then
    set { builder with plan := builder.plan.push node parent? }
    return builder.plan.size
  else throw .exhausted

/-- Changes a node. -/
def changeNode (id : NodeId) (change : Node → Node) : Build Unit :=
  modify fun builder => { builder with plan := builder.plan.mapNode id change }

/-- Puts a node above another. -/
def changeParent (id parent : NodeId) : Build Unit :=
  modify fun builder => { builder with plan := builder.plan.setParent id parent }

/-- Puts the cursor on a node. -/
def placeCursor (id : NodeId) : Build Unit :=
  modify fun builder => { builder with cursor? := some id }

/-- Inserts the root and puts the cursor on it. -/
def start : Build NodeId := do
  if (← get).isStarted then throw .alreadyStarted
  let id ← allocate (.start none) none
  placeCursor id
  return id

/-- Inserts a step below the cursor and puts the cursor on it. -/
def enter (call : BuilderCall) (node : Node) : Build NodeId := do
  let here ← insertionPoint call
  let id ← allocate node (some here)
  changeNode here (Node.followedBy id)
  placeCursor id
  return id

/-- Steps to the entities of a type. -/
def enterEntity (tag typeName : String) : Build NodeId :=
  enter .enterEntity (.entity ⟨tag, typeName, none⟩ none)

/-- Steps to one entity. -/
def enterConcrete (entity : ConcreteEntity) (typeName tag : String) : Build NodeId :=
  enter .enterConcrete (.entity ⟨tag, typeName, some entity⟩ none)

/-- Steps over a relation. -/
def enterRelation (relationType : String) (direction : Direction) (tag : String) :
    Build NodeId :=
  enter .enterRelation (.relation ⟨relationType, direction, tag⟩ none)

/-- The operation that adds a property of something. -/
def propertyCall : PropertyScope → BuilderCall
  | .entity => .addProperty
  | .relation => .addRelationProperty

/-- Adds a property below the cursor. -/
def addProperty (property : Property) : Build NodeId := do
  let here ← insertionPoint (propertyCall property.scope)
  let id ← allocate (.property property) (some here)
  changeNode here (Node.holding id)
  return id

/-- Adds the members of a group and gives their numbers. -/
def addMembers (group : NodeId) : List (String × Option Constraint) → Build (List NodeId)
  | [] => return []
  | (propertyType, constraint?) :: rest => do
    let property : Property := ⟨.entity, propertyType, .ofConstraint? constraint?⟩
    let member ← allocate (.property property) (some group)
    let others ← addMembers group rest
    return member :: others

/-- Adds a group of entity properties below the cursor. -/
def addGroup (fields : List (String × Option Constraint)) (quantifier : Quantifier) :
    Build NodeId := do
  let here ← insertionPoint .addGroup
  let group ← allocate (.group quantifier []) (some here)
  let members ← addMembers group fields
  changeNode group fun _ => .group quantifier members
  changeNode here (Node.holding group)
  return group

/-- The node that has to move below a quantifier put after a node: the one that the node leads on
to, unless it leads on to several. -/
def displaced? : Node → Option NodeId
  | .quantifier .. => none
  | other => other.next.head?

/-- Puts a quantifier after the node at the cursor and the cursor on it. What the node led on to
comes below the quantifier, so later insertions stand beside it. -/
def addQuantifier (quantifier : Quantifier) : Build NodeId := do
  let here ← insertionPoint .addQuantifier
  let moved? := ((← get).plan.node? here).bind displaced?
  let id ← allocate (.quantifier quantifier moved?.toList) (some here)
  changeNode here (Node.followedBy id)
  match moved? with
  | none => pure ()
  | some moved => changeParent moved id
  placeCursor id
  return id

/-- Moves the cursor to a node. -/
def moveTo (id : NodeId) : Build Unit := do
  let _ ← cursor .moveTo
  if ((← get).plan.node? id).isNone then throw (.unknownNode id)
  placeCursor id

/-- Climbs from the cursor to the first node that is accepted. The cursor stays. -/
def ascend (accepts : NodeId → Node → Bool) : Build Ascent := do
  let here ← cursor .ascend
  let plan := (← get).plan
  return plan.climb accepts (plan.size + 1) here

end Builder

end TraversalQuery
