import TraversalQuery.Proofs.Plan.Checking
import TraversalQuery.Proofs.Plan.WellFormed

/-!
# Nothing is wrong with a well-formed plan

A well-formed plan is coherent: paths go up parent by parent, and the lists of quantifiers and
groups hold the nodes below them. So the check of the plan finds nothing.
-/

namespace TraversalQuery

namespace Plan

variable {plan : Plan}

/-- A path to the root leads there from parent to parent. -/
theorem Ascends.reaches {id : NodeId} {path : List NodeId} (ascent : plan.Ascends id path) :
    plan.Reaches id Plan.root := by
  induction ascent with
  | root => exact .refl
  | above link _ ih => exact .head link ih

namespace WellFormed

/-- Every node that a node leads on to stands below it. -/
theorem parent?_of_mem_next (formed : plan.WellFormed) {id target : NodeId} {node : Node}
    (found : plan.node? id = some node) (leads : target ∈ node.next) :
    plan.parent? target = some id := by
  have linear (same : node.next = node.successor?.toList) : plan.parent? target = some id := by
    rw [same, Option.mem_toList] at leads
    exact (formed.successor found leads).1
  cases node with
  | start => exact linear rfl
  | entity => exact linear rfl
  | relation => exact linear rfl
  | property => exact absurd leads List.not_mem_nil
  | group => exact absurd leads List.not_mem_nil
  | quantifier kind next =>
    rw [Node.next, formed.fan found] at leads
    exact mem_children.mp leads

/-- A group is the parent of its members, which are properties and stand right behind it. -/
theorem member (formed : plan.WellFormed) {group : NodeId} {kind : Quantifier}
    {members : List NodeId} (found : plan.node? group = some (.group kind members)) {place : Nat}
    {member : NodeId} (isMember : members[place]? = some member) :
    member = group + place + 1 ∧ (∃ held, plan.node? member = some (.property held)) ∧
      plan.parent? member = some group := by
  have listed := List.mem_of_getElem? isMember
  refine ⟨?_, formed.memberProperty found listed, ?_⟩
  · rw [eq_range'_iff.mp (formed.memberPlaces found) place member isMember, Nat.add_right_comm]
  · rw [formed.group found] at listed
    exact mem_children.mp listed

/-- Well-formed plans are coherent. -/
theorem coherent (formed : plan.WellFormed) : plan.Coherent where
  startsAtRoot := formed.startsAtRoot
  rootOnTop := formed.rootOnTop
  oneStart := formed.oneStart
  placed := by
    intro id inside other
    obtain ⟨path, ascent⟩ := formed.rooted inside
    cases ascent with
    | root => exact absurd rfl other
    | above link rest => exact ⟨_, link, rest.lt_size, rest.reaches⟩
  noneBelowProperty := formed.noneBelowProperty
  listed := by
    intro id parent kind members link found
    rw [formed.group found]
    exact mem_children.mpr link
  linked := by
    intro id node target found leads
    have link := formed.parent?_of_mem_next found leads
    exact ⟨lt_size_of_parent? link, link⟩
  members := fun found isMember => formed.member found isMember

/-- The check of a well-formed plan finds nothing. -/
theorem violations_eq_nil (formed : plan.WellFormed) : plan.violations = [] :=
  formed.coherent.violations_eq_nil

end WellFormed

end Plan

end TraversalQuery
