import TraversalQuery.Plan.Basic

/-!
# Outlines

The outline of a plan is the tree of its nodes below one another, each with what it stands for. It
leaves out where steps lead on to, as the tree shows that.
-/

namespace TraversalQuery

/-- What a node stands for. -/
inductive Label where
  | start
  | entity (step : EntityStep)
  | relation (step : RelationStep)
  | property (property : Property)
  | group (kind : Quantifier) (members : List NodeId)
  | quantifier (kind : Quantifier) (next : List NodeId)
deriving DecidableEq, Inhabited, Repr

namespace Label

/-- What a node stands for. A test against the empty text counts as one against nothing. -/
def ofNode : Node → Label
  | .start _ => .start
  | .entity step _ => .entity step
  | .relation step _ => .relation step
  | .property held => .property { held with use := held.use.normal }
  | .group kind members => .group kind members
  | .quantifier kind next => .quantifier kind next

/-- The word for what a node is. -/
def kind : Label → String
  | .start => "Start"
  | .entity ⟨_, _, none⟩ => "Entity"
  | .entity ⟨_, _, some _⟩ => "Concrete"
  | .relation _ => "Rel"
  | .property ⟨.entity, _, _⟩ => "Prop"
  | .property ⟨.relation, _, _⟩ => "RelProp"
  | .group .. => "Group"
  | .quantifier .. => "Quant"

end Label

/-- A node and the outlines of the nodes below it. -/
inductive Outline where
  | node (id : NodeId) (label : Label) (children : List Outline)
deriving Inhabited

namespace Outline

/-- The number of the node at the top. -/
def id : Outline → NodeId
  | .node id _ _ => id

/-- What the node at the top stands for. -/
def label : Outline → Label
  | .node _ label _ => label

/-- The outlines below the node at the top. -/
def children : Outline → List Outline
  | .node _ _ children => children

mutual

/-- Whether two outlines are the same. -/
def same : Outline → Outline → Bool
  | .node id label children, .node other label' children' =>
    id == other && label == label' && sameAll children children'

/-- Whether two lists of outlines are the same. -/
def sameAll : List Outline → List Outline → Bool
  | [], [] => true
  | first :: rest, other :: rest' => same first other && sameAll rest rest'
  | _, _ => false

end

instance : BEq Outline := ⟨same⟩

end Outline

namespace Plan

/-- The outline below a node, no deeper than `limit` nodes. -/
def outlineFrom (plan : Plan) : Nat → NodeId → Option Outline
  | 0, _ => none
  | limit + 1, id =>
    (plan.node? id).map fun node =>
      .node id (.ofNode node) ((plan.children id).filterMap (plan.outlineFrom limit))

/-- The outline of a plan. Only a plan without nodes has none: no node stands deeper than there are
nodes. -/
def outline? (plan : Plan) : Option Outline :=
  plan.outlineFrom (plan.size + 1) root

end Plan

end TraversalQuery
