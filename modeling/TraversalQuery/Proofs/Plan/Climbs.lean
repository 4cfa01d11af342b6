import TraversalQuery.Plan.Builder
import TraversalQuery.Proofs.Plan.Ancestry

/-!
# Climbing towards the root

A climb asks about a node, then about the one above it, and goes on until a node is accepted or
nothing stands above. Nothing in this bounds how often it goes on. Along a path to the root the
climb comes to an end all the same: it asks about the nodes of the path in order, up to the first
that is accepted. So a limit that leaves room for the path is never felt.
-/

namespace TraversalQuery

namespace Plan

variable {plan : Plan} {accepts : NodeId → Node → Bool}

/-- A climb without any limit that comes to an end, and what it comes to. -/
inductive Climbs (plan : Plan) (accepts : NodeId → Node → Bool) : NodeId → Ascent → Prop
  | accepted {id : NodeId} {node : Node} (found : plan.node? id = some node)
      (fits : accepts id node = true) : Climbs plan accepts id ⟨some id, [id]⟩
  | ended {id : NodeId} {node : Node} (found : plan.node? id = some node)
      (refused : accepts id node = false) (top : plan.parent? id = none) :
      Climbs plan accepts id ⟨none, [id]⟩
  | onward {id parent : NodeId} {node : Node} {rest : Ascent} (found : plan.node? id = some node)
      (refused : accepts id node = false) (link : plan.parent? id = some parent)
      (later : Climbs plan accepts parent rest) :
      Climbs plan accepts id ⟨rest.found?, id :: rest.asked⟩

/-- Whether the node of a number is accepted. -/
def isAccepted (plan : Plan) (accepts : NodeId → Node → Bool) (id : NodeId) : Bool :=
  (plan.node? id).any (accepts id)

/-- What a climb along a path comes to: the first node that is accepted, with all nodes before it
and the node itself asked about. -/
def ascentAlong (plan : Plan) (accepts : NodeId → Node → Bool) (path : List NodeId) : Ascent :=
  let found? := path.find? (plan.isAccepted accepts)
  ⟨found?, path.takeWhile (fun id => !plan.isAccepted accepts id) ++ found?.toList⟩

/-- A climb comes to one end at most. -/
theorem Climbs.unique {id : NodeId} {first : Ascent} (climbs : plan.Climbs accepts id first) :
    ∀ {second : Ascent}, plan.Climbs accepts id second → second = first := by
  induction climbs with
  | accepted found fits =>
    intro second other
    cases other with
    | accepted => rfl
    | ended found' refused | onward found' refused =>
      obtain rfl := Option.some.inj (found'.symm.trans found)
      exact absurd (fits.symm.trans refused) Bool.noConfusion
  | ended found refused top =>
    intro second other
    cases other with
    | accepted found' fits =>
      obtain rfl := Option.some.inj (found'.symm.trans found)
      exact absurd (fits.symm.trans refused) Bool.noConfusion
    | ended => rfl
    | onward _ _ link =>
      rw [top] at link
      contradiction
  | onward found refused link _ ih =>
    intro second other
    cases other with
    | accepted found' fits =>
      obtain rfl := Option.some.inj (found'.symm.trans found)
      exact absurd (fits.symm.trans refused) Bool.noConfusion
    | ended _ _ top =>
      rw [top] at link
      contradiction
    | onward _ _ link' later =>
      obtain rfl := Option.some.inj (link'.symm.trans link)
      rw [ih later]

/-- A climb that comes to an end does so within any limit that leaves room for its questions. -/
theorem Climbs.climb_eq {id : NodeId} {ascent : Ascent} (climbs : plan.Climbs accepts id ascent) :
    ∀ {limit : Nat}, ascent.asked.length ≤ limit → plan.climb accepts limit id = ascent := by
  induction climbs with
  | accepted found fits =>
    intro limit room
    obtain ⟨limit, rfl⟩ := Nat.exists_eq_add_of_le' room
    simp [climb, found, fits]
  | ended found refused top =>
    intro limit room
    obtain ⟨limit, rfl⟩ := Nat.exists_eq_add_of_le' room
    simp [climb, found, refused, top]
  | onward found refused link _ ih =>
    intro limit room
    rw [List.length_cons] at room
    obtain ⟨limit, rfl⟩ := Nat.exists_eq_add_of_le' (Nat.le_of_add_left_le room)
    simp [climb, found, refused, link, ih (Nat.le_of_add_le_add_right room)]

section Along

variable {id : NodeId} {path : List NodeId}

/-- An ascent ends at a node that is accepted, and asks about no other. -/
theorem ascentAlong_of_accepted (accepted : plan.isAccepted accepts id = true) :
    plan.ascentAlong accepts (id :: path) = ⟨some id, [id]⟩ := by
  simp [ascentAlong, accepted]

/-- An ascent goes on above a node that is refused. -/
theorem ascentAlong_of_refused (refused : plan.isAccepted accepts id = false) :
    plan.ascentAlong accepts (id :: path) =
      ⟨(plan.ascentAlong accepts path).found?, id :: (plan.ascentAlong accepts path).asked⟩ := by
  simp [ascentAlong, refused]

/-- The nodes that are asked about are the first of the path. -/
theorem asked_ascentAlong_isPrefix (path : List NodeId) :
    (plan.ascentAlong accepts path).asked <+: path := by
  induction path with
  | nil => exact List.prefix_rfl
  | cons id rest ih =>
    cases accepted : plan.isAccepted accepts id with
    | true =>
      rw [ascentAlong_of_accepted accepted]
      exact List.prefix_append [id] rest
    | false =>
      rw [ascentAlong_of_refused accepted]
      exact (List.prefix_cons_inj id).mpr ih

/-- From a node with a path to the root a climb comes to an end. -/
theorem Ascends.climbs (ascent : plan.Ascends id path) :
    plan.Climbs accepts id (plan.ascentAlong accepts path) := by
  induction ascent with
  | root present top =>
    obtain ⟨node, found⟩ := exists_node? present
    have same : plan.isAccepted accepts Plan.root = accepts Plan.root node := by
      rw [isAccepted, found, Option.any_some]
    cases answer : accepts Plan.root node with
    | true =>
      rw [ascentAlong_of_accepted (same.trans answer)]
      exact .accepted found answer
    | false =>
      rw [ascentAlong_of_refused (same.trans answer)]
      exact .ended found answer top
  | @above id parent path link rest ih =>
    obtain ⟨node, found⟩ := exists_node? (lt_size_of_parent? link)
    have same : plan.isAccepted accepts id = accepts id node := by
      rw [isAccepted, found, Option.any_some]
    cases answer : accepts id node with
    | true =>
      rw [ascentAlong_of_accepted (same.trans answer)]
      exact .accepted found answer
    | false =>
      rw [ascentAlong_of_refused (same.trans answer)]
      exact .onward found answer link ih

/-- A climb with room for a path to the root goes along that path. -/
theorem Ascends.climb_eq (ascent : plan.Ascends id path) {limit : Nat}
    (room : path.length ≤ limit) :
    plan.climb accepts limit id = plan.ascentAlong accepts path :=
  ascent.climbs.climb_eq ((asked_ascentAlong_isPrefix path).length_le.trans room)

end Along

end Plan

end TraversalQuery
