import TraversalQuery.Proofs.Forest
import TraversalQuery.Proofs.Plan.Edits
import TraversalQuery.Proofs.Planning.Parts

/-!
# Drawings of plans

What a plan looks like, without the numbers of its nodes, is a tree. The tree of a query follows
from its fields by recursion: the fields of an object stand side by side below a fan, and a filter
stands beside the field that it is on. Only the root is different, as it fans out late: properties
that come first stand right below it, and so does the first object if no other field comes after
it. As there is no fan above that object then, its filter stands below its own.
-/

namespace TraversalQuery

namespace Part

/-- The nodes of a field itself, each below the one before. -/
def nodes : Part → List Node
  | .shown property => [.property property]
  | .entered none entity _ => [.entity entity none]
  | .entered (some relation) entity _ => [.relation relation none, .entity entity none]

/-- A property in a filter: it is tested if there is a test for it, else it is shown. -/
def member : String × Option Constraint → Node
  | (propertyType, some test) => .property ⟨.entity, propertyType, .tested test⟩
  | (propertyType, none) => .property ⟨.entity, propertyType, .shown⟩

/-- The filter of a field: a group of its tests. -/
def group (part : Part) : Forest Node :=
  match part.filter? with
  | none => .nil
  | some filter => .tree (.group filter.kind []) (.leaves (filter.fields.map member))

end Part

namespace Drawing

/-- A fan above trees, if there are any. -/
def fanOut : Forest Node → Forest Node
  | .nil => .nil
  | trees => .tree (.quantifier .every []) trees

/-- The fields inside an object. -/
def branches : Forest Part → Forest Node
  | .nil => .nil
  | .node part below rest =>
    .chain part.nodes (fanOut (branches below)) ++ part.group ++ branches rest

/-- The first object at the root, before another field comes. -/
def trunk (part : Part) (below : Forest Part) : Forest Node :=
  .chain part.nodes (fanOut (part.group ++ branches below))

/-- The root fields. -/
def rootBranches : Forest Part → Forest Node
  | .nil => .nil
  | .node (.shown property) _ rest => .node (.property property) .nil (rootBranches rest)
  | .node (.entered relation? entity filter?) below .nil =>
    trunk (.entered relation? entity filter?) below
  | .node (.entered relation? entity filter?) below rest =>
    fanOut (trunk (.entered relation? entity filter?) below ++ branches rest)

/-- The tree of a query. -/
def ofParts (parts : Forest Part) : Forest Node :=
  .tree (.start none) (rootBranches parts)

end Drawing

namespace Plan

/-- Nodes of a plan that draw trees: a node for each, in order, which has the content of its label
and below which the nodes, in the order of their numbers, draw what is below the label. -/
def Draws (plan : Plan) : Forest Node → List NodeId → Prop
  | .nil, ids => ids = []
  | .node label below rest, ids => ∃ id others, ids = id :: others ∧
    (plan.node? id).map Node.bare = some label ∧ plan.Draws below (plan.children id) ∧
      plan.Draws rest others

/-- Nodes draw nothing else than what they draw. -/
theorem Draws.unique {plan : Plan} {forest other : Forest Node} {ids : List NodeId}
    (draws : plan.Draws forest ids) (draws' : plan.Draws other ids) : forest = other := by
  induction forest generalizing other ids with
  | nil =>
    cases other with
    | nil => rfl
    | node label below rest =>
      obtain ⟨_, _, same, _⟩ := draws'
      rw [show ids = [] from draws] at same
      contradiction
  | node label below rest ihBelow ihRest =>
    obtain ⟨id, others, rfl, isLabel, draws, later⟩ := draws
    cases other with
    | nil => contradiction
    | node label' below' rest' =>
      obtain ⟨_, _, same, isLabel', draws', later'⟩ := draws'
      obtain ⟨rfl, rfl⟩ := List.cons.inj same
      rw [Option.some.inj (isLabel.symm.trans isLabel'), ihBelow draws draws', ihRest later later']

end Plan

end TraversalQuery
