import TraversalQuery.Plan.Node
import TraversalQuery.Response.Path

/-!
# Positions

Where in a plan the fields of an object at a path are to be put. Steps into lists do not count, as
a list and its items are one place in a plan.
-/

namespace TraversalQuery

namespace ResponsePath

/-- What a path is known by when its steps into lists do not count. -/
def positionKey (path : ResponsePath) : String :=
  path.fieldPath.text

@[simp] theorem positionKey_item (path : ResponsePath) (index : Nat) :
    (path.item index).positionKey = path.positionKey := by
  simp [positionKey]

end ResponsePath

/-- Nodes of a plan by paths, the latest first. -/
structure Positions where
  entries : List (String × NodeId)
deriving DecidableEq, Inhabited, Repr

namespace Positions

/-- No positions. -/
def empty : Positions := ⟨[]⟩

/-- The node for a path. -/
def get? (positions : Positions) (path : ResponsePath) : Option NodeId :=
  positions.entries.lookup path.positionKey

/-- The positions with a node for a path, which counts from now on. -/
def set (positions : Positions) (path : ResponsePath) (id : NodeId) : Positions :=
  ⟨(path.positionKey, id) :: positions.entries⟩

@[simp] theorem get?_set_self (positions : Positions) (path : ResponsePath) (id : NodeId) :
    (positions.set path id).get? path = some id := by
  simp [get?, set]

/-- Noting a node for a path leaves the notes for others. -/
theorem get?_set_of_ne (positions : Positions) {path other : ResponsePath} (id : NodeId)
    (different : other.positionKey ≠ path.positionKey) :
    (positions.set path id).get? other = positions.get? other := by
  simp [get?, set, List.lookup_cons, beq_false_of_ne different]

end Positions

end TraversalQuery
