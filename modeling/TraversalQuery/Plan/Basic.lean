import TraversalQuery.Plan.Node

/-!
# Traversal plans

A plan keeps its nodes in a list, each with the number of the node above it. The list is all there
is: ancestors, children and tags are read off it. The numbers of nodes are 32 bits wide, and a plan
with no more nodes than that is an arena.
-/

namespace TraversalQuery

/-- A node and the node above it. -/
structure Slot where
  node : Node
  parent? : Option NodeId
deriving DecidableEq, Inhabited, Repr

/-- A traversal, with the operation it is for and the ontology whose names it uses. -/
structure Plan where
  name? : Option String
  ontology? : Option String
  slots : List Slot
deriving DecidableEq, Inhabited, Repr

/-- A plan with a number for each of its nodes: numbers are 32 bits wide. -/
structure Arena extends Plan where
  numbered : slots.length ≤ Nat.pow 2 32

namespace Plan

/-- The number of the node where a traversal starts. -/
def root : NodeId := 0

/-- How many nodes there are. -/
def size (plan : Plan) : Nat :=
  plan.slots.length

/-- The numbers of the nodes, in order: their places, which in an arena are 32 bits wide. -/
def ids (plan : Plan) : List NodeId :=
  List.range plan.size

/-- The node of a number. -/
def node? (plan : Plan) (id : NodeId) : Option Node :=
  (plan.slots[id]?).map (·.node)

/-- The node above the node of a number. -/
def parent? (plan : Plan) (id : NodeId) : Option NodeId :=
  (plan.slots[id]?).bind (·.parent?)

/-- The first step with a tag. -/
def findTag? (plan : Plan) (tag : String) : Option NodeId :=
  plan.slots.findIdx? fun slot => slot.node.tag? == some tag

/-- The nodes below a node, in order. -/
def children (plan : Plan) (id : NodeId) : List NodeId :=
  (plan.slots.zipIdx.filter fun (slot, _) => slot.parent? == some id).map Prod.snd

/-- A node and the nodes above it, no more than `limit` in all. -/
def ancestry (plan : Plan) : Nat → NodeId → List NodeId
  | 0, _ => []
  | limit + 1, id =>
    match plan.parent? id with
    | none => [id]
    | some parent => id :: plan.ancestry limit parent

/-- A node and the nodes above it up to the root. Nothing stands above the root of a plan, and a
path longer than the plan shows that parents lead in a circle; it is cut off there. A number without
a node has no path. -/
def pathToRoot (plan : Plan) (id : NodeId) : List NodeId :=
  match plan.node? id with
  | none => []
  | some _ => plan.ancestry (plan.size + 1) id

/-- The plan with the node of a number changed. -/
def mapNode (plan : Plan) (id : NodeId) (change : Node → Node) : Plan :=
  { plan with slots := plan.slots.modify id fun slot => { slot with node := change slot.node } }

/-- The plan with another node above the node of a number. -/
def setParent (plan : Plan) (id parent : NodeId) : Plan :=
  { plan with slots := plan.slots.modify id fun slot => { slot with parent? := some parent } }

/-- The plan with one more node. -/
def push (plan : Plan) (node : Node) (parent? : Option NodeId) : Plan :=
  { plan with slots := plan.slots ++ [⟨node, parent?⟩] }

/-- The children of a node are the nodes that have it as their parent. -/
theorem mem_children {plan : Plan} {id child : NodeId} :
    child ∈ plan.children id ↔ plan.parent? child = some id := by
  simp only [children, List.mem_map, List.mem_filter, beq_iff_eq, Prod.exists, parent?,
    Option.bind_eq_some_iff, List.mem_zipIdx_iff_getElem?]
  constructor
  · rintro ⟨slot, _, ⟨found, above⟩, rfl⟩
    exact ⟨slot, found, above⟩
  · rintro ⟨slot, found, above⟩
    exact ⟨slot, child, ⟨found, above⟩, rfl⟩

@[simp] theorem size_mapNode (plan : Plan) (id : NodeId) (change : Node → Node) :
    (plan.mapNode id change).size = plan.size := by
  simp [mapNode, size]

@[simp] theorem size_setParent (plan : Plan) (id parent : NodeId) :
    (plan.setParent id parent).size = plan.size := by
  simp [setParent, size]

@[simp] theorem size_push (plan : Plan) (node : Node) (parent? : Option NodeId) :
    (plan.push node parent?).size = plan.size + 1 := by
  simp [push, size]

/-- Changing a node changes no other. -/
theorem node?_mapNode (plan : Plan) (id other : NodeId) (change : Node → Node) :
    (plan.mapNode id change).node? other =
      if id = other then (plan.node? other).map change else plan.node? other := by
  simp only [mapNode, node?, List.getElem?_modify]
  split <;> simp [Function.comp_def]

@[simp] theorem parent?_mapNode (plan : Plan) (id other : NodeId) (change : Node → Node) :
    (plan.mapNode id change).parent? other = plan.parent? other := by
  simp only [mapNode, parent?, List.getElem?_modify]
  cases plan.slots[other]? with
  | none => simp
  | some slot => by_cases same : id = other <;> simp [same]

@[simp] theorem node?_setParent (plan : Plan) (id other parent : NodeId) :
    (plan.setParent id parent).node? other = plan.node? other := by
  simp only [setParent, node?, List.getElem?_modify]
  cases plan.slots[other]? with
  | none => simp
  | some slot => by_cases same : id = other <;> simp [same]

/-- A new node takes the first id that was free. -/
theorem node?_push (plan : Plan) (node : Node) (parent? : Option NodeId) (id : NodeId) :
    (plan.push node parent?).node? id =
      if id = plan.size then some node else plan.node? id := by
  have new : (plan.push node parent?).slots = plan.slots ++ [⟨node, parent?⟩] := rfl
  unfold node? size
  rw [new]
  rcases Nat.lt_trichotomy id plan.slots.length with below | same | beyond
  · simp [List.getElem?_append_left below, Nat.ne_of_lt below]
  · simp [same]
  · have outside : (plan.slots ++ [Slot.mk node parent?]).length ≤ id := by
      rw [List.length_append]
      exact beyond
    simp [List.getElem?_eq_none outside, List.getElem?_eq_none (Nat.le_of_lt beyond),
      Nat.ne_of_gt beyond]

end Plan

end TraversalQuery
