import TraversalQuery.Plan.Operator

/-!
# The nodes of a traversal

A traversal starts somewhere, steps over relations to entities, tests or shows their properties, and
fans out at quantifiers. Nodes name one another by number: a node that leads on keeps the numbers of
the nodes after it.
-/

namespace TraversalQuery

/-- The number of a node, which is its place among the nodes of a traversal. -/
abbrev NodeId := Nat

/-- The way a relation is crossed: against its declared direction, along it, or either way. -/
inductive Direction where
  | backward
  | forward
  | either
deriving DecidableEq, Inhabited, Repr

namespace Direction

/-- A direction as it is written. -/
def text : Direction → String
  | .backward => "L"
  | .forward => "R"
  | .either => "RL"

/-- The direction that a text writes. -/
def ofText? : String → Option Direction
  | "L" => some .backward
  | "R" => some .forward
  | "RL" => some .either
  | _ => none

/-- The word for a direction is read back. -/
@[simp] theorem ofText?_text (direction : Direction) :
    ofText? direction.text = some direction := by
  cases direction <;> rfl

end Direction

/-- How many branches have to match. -/
inductive Quantifier where
  | every
  | any
deriving DecidableEq, Inhabited, Repr

namespace Quantifier

/-- A quantifier as it is written. -/
def text : Quantifier → String
  | .every => "ALL"
  | .any => "SOME"

/-- The quantifier that a text writes. -/
def ofText? : String → Option Quantifier
  | "ALL" => some .every
  | "SOME" => some .any
  | _ => none

/-- The name under which a quantifier is stored. -/
def storedName : Quantifier → String
  | .every => "All"
  | .any => "Some"

/-- The word for a quantifier is read back. -/
@[simp] theorem ofText?_text (quantifier : Quantifier) :
    ofText? quantifier.text = some quantifier := by
  cases quantifier <;> rfl

end Quantifier

/-- A test of a property: an operator and what it compares with. -/
structure Constraint where
  operator : Operator
  expression? : Option String
deriving DecidableEq, Inhabited, Repr

/-- What is done with a property: it is shown as it is, or tested. -/
inductive PropertyUse where
  | shown
  | tested (constraint : Constraint)
deriving DecidableEq, Inhabited, Repr

namespace PropertyUse

/-- A property is tested when there is a constraint for it, else it is shown. -/
def ofConstraint? : Option Constraint → PropertyUse
  | none => .shown
  | some constraint => .tested constraint

/-- The constraint of a property that is tested. -/
def constraint? : PropertyUse → Option Constraint
  | .shown => none
  | .tested constraint => some constraint

/-- A use of a property as it is written. -/
def text : PropertyUse → String
  | .shown => "Identity"
  | .tested constraint => constraint.operator.text ++ "," ++ constraint.expression?.getD ""

/-- The use in which a test against the empty text is a test against nothing, as both are written
the same. -/
def normal : PropertyUse → PropertyUse
  | .tested ⟨operator, some ""⟩ => .tested ⟨operator, none⟩
  | other => other

end PropertyUse

/-- What a property belongs to. -/
inductive PropertyScope where
  | entity
  | relation
deriving DecidableEq, Inhabited, Repr

/-- The one entity that a step is about: its id, and a name to show for it. -/
structure ConcreteEntity where
  id : String
  displayName? : Option String
deriving DecidableEq, Inhabited, Repr

/-- A step to entities of a type, or to one of them. -/
structure EntityStep where
  tag : String
  typeName : String
  concrete? : Option ConcreteEntity
deriving DecidableEq, Inhabited, Repr

/-- A step over a relation. -/
structure RelationStep where
  relationType : String
  direction : Direction
  tag : String
deriving DecidableEq, Inhabited, Repr

/-- A property of an entity or a relation. -/
structure Property where
  scope : PropertyScope
  propertyType : String
  use : PropertyUse
deriving DecidableEq, Inhabited, Repr

/-- A node of a traversal. -/
inductive Node where
  | start (next? : Option NodeId)
  | entity (step : EntityStep) (next? : Option NodeId)
  | relation (step : RelationStep) (next? : Option NodeId)
  | property (property : Property)
  | group (kind : Quantifier) (members : List NodeId)
  | quantifier (kind : Quantifier) (next : List NodeId)
deriving DecidableEq, Inhabited, Repr

namespace Node

/-- The tag of a step. -/
def tag? : Node → Option String
  | .entity step _ => some step.tag
  | .relation step _ => some step.tag
  | _ => none

/-- The nodes that a node leads on to. -/
def next : Node → List NodeId
  | .start next? => next?.toList
  | .entity _ next? => next?.toList
  | .relation _ next? => next?.toList
  | .quantifier _ next => next
  | .property _ => []
  | .group .. => []

/-- Steps are entities and relations. -/
def isStep : Node → Bool
  | .entity .. => true
  | .relation .. => true
  | _ => false

/-- Whether a node is where a traversal starts. -/
def isStart : Node → Bool
  | .start _ => true
  | _ => false

/-- Whether a node is a property. -/
def isProperty : Node → Bool
  | .property _ => true
  | _ => false

/-- Whether a node is a quantifier, at which a traversal fans out. -/
def isQuantifier : Node → Bool
  | .quantifier .. => true
  | _ => false

/-- Properties and groups, below which nothing can be put. -/
def isLeaf : Node → Bool
  | .property _ => true
  | .group .. => true
  | _ => false

/-- A node that leads on to one more: a quantifier to each of its nodes, another only to the
last. -/
def followedBy (id : NodeId) : Node → Node
  | .start _ => .start (some id)
  | .entity step _ => .entity step (some id)
  | .relation step _ => .relation step (some id)
  | .quantifier kind next => .quantifier kind (next ++ [id])
  | .property held => .property held
  | .group kind members => .group kind members

/-- A node with one more leaf: only quantifiers lead on to leaves. -/
def holding (id : NodeId) : Node → Node
  | .quantifier kind next => .quantifier kind (next ++ [id])
  | other => other

end Node

end TraversalQuery
