import TraversalQuery.Proofs.Plan.Climbs
import TraversalQuery.Proofs.Plan.Preservation

/-!
# Plans that only grow

Whatever is done to a plan under construction, its nodes stay what they are: only where they lead
changes, and nodes are added after them.
-/

namespace TraversalQuery

namespace Plan

variable {plan later latest : Plan}

/-- A later plan has the names and the nodes of before. The nodes may lead on to others. -/
structure Extends (plan later : Plan) : Prop where
  nodes : ∀ id held, plan.node? id = some held →
    ∃ now, later.node? id = some now ∧ now.bare = held.bare
  name : later.name? = plan.name?
  ontology : later.ontology? = plan.ontology?

namespace Extends

theorem refl (plan : Plan) : plan.Extends plan :=
  ⟨fun _ held found => ⟨held, found, rfl⟩, rfl, rfl⟩

/-- A plan that extends one that extends another extends that one. -/
theorem trans (first : plan.Extends later) (second : later.Extends latest) :
    plan.Extends latest := by
  refine ⟨fun id held found => ?_, second.name.trans first.name,
    second.ontology.trans first.ontology⟩
  obtain ⟨now, nowAt, same⟩ := first.nodes id held found
  obtain ⟨last, lastAt, same'⟩ := second.nodes id now nowAt
  exact ⟨last, lastAt, same'.trans same⟩

/-- What was a node to insert at stays one. -/
theorem opened (grown : plan.Extends later) {id : NodeId} (isOpen : plan.Open id) :
    later.Open id := by
  obtain ⟨held, found, inner⟩ := isOpen
  obtain ⟨now, nowAt, same⟩ := grown.nodes id held found
  exact ⟨now, nowAt, (Node.isLeaf_of_bare same).trans inner⟩

/-- Attaching a node extends a plan. -/
theorem attach {node : Node} {here : NodeId} {link : NodeId → Node → Node}
    (marks : ∀ id held, (link id held).bare = held.bare) (inside : here < plan.size) :
    plan.Extends (plan.attach node here link) where
  nodes := fun _ _ found =>
    Gains.after marks ⟨size_attach .., inside, node?_attach plan _ _ inside⟩ found
  name := rfl
  ontology := rfl

/-- Splicing a quantifier in extends a plan. -/
theorem splice {kind : Quantifier} {here : NodeId} {moved? : Option NodeId}
    (inside : here < plan.size) : plan.Extends (plan.splice kind here moved?) where
  nodes := fun _ _ found => Gains.after Node.bare_followedBy
    ⟨size_splice .., inside, node?_splice plan kind inside moved?⟩ found
  name := by cases moved? <;> rfl
  ontology := by cases moved? <;> rfl

/-- New members leave the names of the plan. -/
theorem names_pushMembers (group : NodeId) (fields : List (String × Option Constraint)) :
    ∀ plan : Plan, (plan.pushMembers group fields).name? = plan.name? ∧
      (plan.pushMembers group fields).ontology? = plan.ontology? := by
  induction fields with
  | nil => exact fun _ => ⟨rfl, rfl⟩
  | cons field rest ih => exact fun plan => ih _

/-- Attaching a group extends a plan. -/
theorem attachGroup {kind : Quantifier} {fields : List (String × Option Constraint)}
    {here : NodeId} : plan.Extends (plan.attachGroup kind fields here) where
  nodes := by
    intro id held found
    rw [node?_attachGroup_of_lt plan kind fields (lt_size_of_node? found), found]
    split
    · exact ⟨_, rfl, Node.bare_holding _ _⟩
    · exact ⟨held, rfl, rfl⟩
  name := (names_pushMembers _ fields _).1
  ontology := (names_pushMembers _ fields _).2

end Extends

/-- A climb ends at a node that is accepted. -/
theorem accepts_of_climb {accepts : NodeId → Node → Bool} (limit : Nat) :
    ∀ {id target : NodeId}, (plan.climb accepts limit id).found? = some target →
      ∃ node, plan.node? target = some node ∧ accepts target node = true := by
  induction limit with
  | zero =>
    intro id target found
    contradiction
  | succ limit ih =>
    intro id target found
    unfold climb at found
    split at found
    · contradiction
    · rename_i node present
      split at found
      · rename_i accepted
        obtain rfl := Option.some.inj found
        exact ⟨node, present, accepted⟩
      · split at found
        · contradiction
        · exact ih found

/-- A climb with enough room ends at the first node on the way to the root that is accepted. -/
theorem found?_climb (accepts : NodeId → Node → Bool) {id : NodeId} {path : List NodeId}
    (ascent : plan.Ascends id path) {limit : Nat} (room : path.length ≤ limit) :
      (plan.climb accepts limit id).found? =
        path.find? fun passed => (plan.node? passed).any (accepts passed) := by
  rw [ascent.climb_eq room]
  rfl

end Plan

end TraversalQuery
