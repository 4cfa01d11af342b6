import TraversalQuery.Plan.Basic

/-!
# Well-formed plans

What has to hold of the nodes of a plan, and a check that lists everything that does not: the root
stands first and alone, every other node reaches it, links agree with parents, and groups stand
right before their members.
-/

namespace TraversalQuery

/-- Something that does not hold of a plan. -/
inductive Violation where
  | missingStart
  | extraStart (id : NodeId)
  | orphan (id : NodeId)
  | unrooted (id : NodeId)
  | danglingLink (source target : NodeId)
  | misplacedLink (source target : NodeId) (actual? : Option NodeId)
  | scatteredGroup (group : NodeId)
  | foreignMember (group member : NodeId)
  | leafWithChild (leaf child : NodeId)
deriving DecidableEq, Inhabited, Repr

namespace Violation

/-- A parent as messages show it. -/
def parentText : Option NodeId → String
  | none => "None"
  | some id => s!"Some(NodeId({id}))"

/-- What does not hold, in words. -/
def message : Violation → String
  | .missingStart => "node 0 is not a parentless Start node"
  | .extraStart id => s!"node {id} is a second Start node"
  | .orphan id => s!"node {id} has no parent"
  | .unrooted id => s!"node {id} does not reach Start through its parents"
  | .danglingLink source target => s!"node {source} links to missing node {target}"
  | .misplacedLink source target actual? =>
    s!"node {source} links to {target}, whose parent is " ++ parentText actual?
  | .scatteredGroup group => s!"group {group} members do not directly follow it"
  | .foreignMember group member =>
    s!"group {group} member {member} is not a property owned by the group"
  | .leafWithChild leaf child => s!"leaf {leaf} has child {child}"

end Violation

namespace Plan

/-- What is wrong with the first node. -/
def rootViolations (plan : Plan) : List Violation :=
  if (plan.node? root).any Node.isStart && (plan.parent? root).isNone then []
  else [.missingStart]

/-- What is wrong with a node as the parent of another. -/
def parentViolations (plan : Plan) (parent child : NodeId) : List Violation :=
  match plan.node? parent with
  | none => [.danglingLink child parent]
  | some (.property _) => [.leafWithChild parent child]
  | some (.group _ members) =>
    if members.contains child then [] else [.foreignMember parent child]
  | some _ => []

/-- What is wrong with the place of a node that is not the first. -/
def placeViolations (plan : Plan) (id : NodeId) : List Violation :=
  (if (plan.node? id).any Node.isStart then [.extraStart id] else []) ++
    match plan.parent? id with
    | none => [.orphan id]
    | some parent =>
      plan.parentViolations parent id ++
        if (plan.pathToRoot id).getLast? = some root then [] else [.unrooted id]

/-- What is wrong with a link from a node to one it leads on to. -/
def linkViolations (plan : Plan) (source target : NodeId) : List Violation :=
  if (plan.node? target).isNone then [.danglingLink source target]
  else if plan.parent? target = some source then []
  else [.misplacedLink source target (plan.parent? target)]

/-- What is wrong with the members of a group. -/
def groupViolations (plan : Plan) (group : NodeId) (members : List NodeId) : List Violation :=
  (if members = List.range' (group + 1) members.length then [] else [.scatteredGroup group]) ++
    (members.filter fun member =>
      !((plan.node? member).any Node.isProperty && plan.parent? member == some group)).map
        (.foreignMember group)

/-- What is wrong with the links and the members of a node. -/
def edgeViolations (plan : Plan) (id : NodeId) : List Violation :=
  match plan.node? id with
  | none => []
  | some node =>
    node.next.flatMap (plan.linkViolations id) ++
      match node with
      | .group _ members => plan.groupViolations id members
      | _ => []

/-- Everything that does not hold of a plan. -/
def violations (plan : Plan) : List Violation :=
  plan.rootViolations ++ (plan.ids.drop 1).flatMap plan.placeViolations ++
    plan.ids.flatMap plan.edgeViolations

end Plan

end TraversalQuery
