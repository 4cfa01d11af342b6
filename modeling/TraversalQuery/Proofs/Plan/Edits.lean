import TraversalQuery.Plan.Builder
import TraversalQuery.Proofs.Plan.Ancestry

/-!
# Edits of plans

What the operations of a builder do to a plan, as three edits: a node is attached below another, a
group is attached with its members, or a quantifier is spliced in after a node. Each edit is
described by what it makes of the three questions that can be asked about a node: what it is, what
stands above it and what stands below it.
-/

namespace TraversalQuery

namespace Node

/-- The one node that a node leads on to, unless it is a quantifier. -/
def successor? : Node → Option NodeId
  | .start next? => next?
  | .entity _ next? => next?
  | .relation _ next? => next?
  | _ => none

/-- A node that leads nowhere yet. -/
def bare : Node → Node
  | .start _ => .start none
  | .entity step _ => .entity step none
  | .relation step _ => .relation step none
  | .property held => .property held
  | .group kind _ => .group kind []
  | .quantifier kind _ => .quantifier kind []

@[simp] theorem bare_followedBy (id : NodeId) (node : Node) :
    (node.followedBy id).bare = node.bare := by
  cases node <;> rfl

@[simp] theorem bare_holding (id : NodeId) (node : Node) : (node.holding id).bare = node.bare := by
  cases node <;> rfl

@[simp] theorem isLeaf_bare (node : Node) : node.bare.isLeaf = node.isLeaf := by
  cases node <;> rfl

@[simp] theorem isQuantifier_bare (node : Node) : node.bare.isQuantifier = node.isQuantifier := by
  cases node <;> rfl

end Node

/-- What a spliced quantifier displaces is the node that was next. -/
theorem Builder.displaced?_eq_successor? (node : Node) :
    Builder.displaced? node = node.successor? := by
  cases node with
  | start next? => cases next? <;> rfl
  | entity _ next? => cases next? <;> rfl
  | relation _ next? => cases next? <;> rfl
  | property => rfl
  | group => rfl
  | quantifier => rfl

namespace Plan

variable {plan : Plan}

theorem parent?_push (plan : Plan) (node : Node) (parent? : Option NodeId) (id : NodeId) :
    (plan.push node parent?).parent? id = if id = plan.size then parent? else plan.parent? id := by
  unfold Plan.parent? push size
  rcases Nat.lt_trichotomy id plan.slots.length with below | same | beyond
  · simp [List.getElem?_append_left below, Nat.ne_of_lt below]
  · simp [same]
  · have outside : (plan.slots ++ [Slot.mk node parent?]).length ≤ id := by
      rw [List.length_append]
      exact beyond
    simp [List.getElem?_eq_none outside, List.getElem?_eq_none (Nat.le_of_lt beyond),
      Nat.ne_of_gt beyond]

theorem parent?_setParent (plan : Plan) {id : NodeId} (parent other : NodeId)
    (inside : id < plan.size) :
    (plan.setParent id parent).parent? other =
      if other = id then some parent else plan.parent? other := by
  unfold size at inside
  simp only [setParent, Plan.parent?, List.getElem?_modify]
  by_cases same : id = other
  · subst same
    simp [List.getElem?_eq_getElem inside]
  · simp [same, Ne.symm same]

/-- The children of a node are those whose parent it is, in order. -/
theorem children_eq_filter (plan : Plan) (id : NodeId) :
    plan.children id = plan.ids.filter fun child => plan.parent? child == some id := by
  have numbered : plan.slots.zipIdx.map Prod.snd = plan.ids := by
    rw [List.zipIdx_map_snd, ids, size, List.range_eq_range']
  rw [← numbered, List.filter_map, children]
  congr 1
  apply List.filter_congr
  rintro ⟨slot, place⟩ member
  have found : plan.slots[place]? = some slot := List.mem_zipIdx_iff_getElem?.mp member
  simp [Plan.parent?, found]

/-- No id names two slots. -/
theorem nodup_ids (plan : Plan) : plan.ids.Nodup :=
  List.nodup_range

/-- No node is listed twice among the children of another. -/
theorem nodup_children (plan : Plan) (id : NodeId) : (plan.children id).Nodup := by
  rw [children_eq_filter]
  exact plan.nodup_ids.filter _

/-- A node that is the parent of one node only has that one child. -/
theorem children_eq_singleton {id only : NodeId}
    (single : ∀ child, plan.parent? child = some id ↔ child = only) :
    plan.children id = [only] := by
  refine List.perm_singleton.mp ((List.perm_ext_iff_of_nodup (plan.nodup_children id)
    (List.nodup_singleton _)).mpr fun child => ?_)
  rw [mem_children, single, List.mem_singleton]

/-- Children are in the plan. -/
theorem lt_size_of_mem_children {id child : NodeId} (member : child ∈ plan.children id) :
    child < plan.size :=
  lt_size_of_parent? (mem_children.mp member)

/-- Children depend on parents alone. -/
theorem children_congr {other : Plan} (sizes : other.size = plan.size) {id : NodeId}
    (parents : ∀ child, other.parent? child = some id ↔ plan.parent? child = some id) :
    other.children id = plan.children id := by
  rw [children_eq_filter, children_eq_filter, ids, ids, sizes]
  apply List.filter_congr
  intro child _
  rw [Bool.eq_iff_iff, beq_iff_eq, beq_iff_eq]
  exact parents child

@[simp] theorem children_mapNode (plan : Plan) (id other : NodeId) (change : Node → Node) :
    (plan.mapNode id change).children other = plan.children other :=
  children_congr (size_mapNode ..) fun child => by rw [parent?_mapNode]

/-- A new node is the last child of its parent. -/
theorem children_push (plan : Plan) (node : Node) (above? : Option NodeId) (id : NodeId) :
    (plan.push node above?).children id =
      plan.children id ++ if above? = some id then [plan.size] else [] := by
  rw [children_eq_filter, children_eq_filter, ids, ids, size_push, List.range_succ,
    List.filter_append]
  congr 1
  · apply List.filter_congr
    intro child member
    rw [parent?_push, if_neg (Nat.ne_of_lt (List.mem_range.mp member))]
  · by_cases same : above? = some id
    · simp [parent?_push, same]
    · simp [parent?_push, same]

/-- A node put below another: the one above it learns of it in the way of `link`. -/
def attach (plan : Plan) (node : Node) (here : NodeId) (link : NodeId → Node → Node) : Plan :=
  (plan.push node (some here)).mapNode here (link plan.size)

section Attach

variable (plan : Plan) (node : Node) {here : NodeId} (link : NodeId → Node → Node)

@[simp] theorem size_attach : (plan.attach node here link).size = plan.size + 1 := by
  simp [attach]

/-- Attaching a node adds it and changes only the node that links to it. -/
theorem node?_attach (inside : here < plan.size) (id : NodeId) :
    (plan.attach node here link).node? id =
      if id = plan.size then some node
      else if id = here then (plan.node? id).map (link plan.size)
      else plan.node? id := by
  rw [attach, node?_mapNode, node?_push]
  by_cases new : id = plan.size
  · have other : here ≠ id := fun same => Nat.ne_of_lt inside (same.trans new)
    rw [if_neg other]
    simp only [if_pos new]
  · simp only [if_neg new, eq_comm (a := here)]

/-- Attaching a node gives a parent to this node only. -/
theorem parent?_attach (id : NodeId) :
    (plan.attach node here link).parent? id =
      if id = plan.size then some here else plan.parent? id := by
  rw [attach, parent?_mapNode, parent?_push]

/-- An attached node is the last child of the node it is attached to. -/
theorem children_attach (id : NodeId) :
    (plan.attach node here link).children id =
      plan.children id ++ if id = here then [plan.size] else [] := by
  rw [attach, children_mapNode, children_push]
  simp only [Option.some.injEq, eq_comm (a := here)]

end Attach

/-- The property that is the member of a group for a field. -/
def memberNode : String × Option Constraint → Node
  | (propertyType, constraint?) => .property ⟨.entity, propertyType, .ofConstraint? constraint?⟩

/-- The members of a group put below it. -/
def pushMembers (group : NodeId) : Plan → List (String × Option Constraint) → Plan
  | plan, [] => plan
  | plan, field :: rest => pushMembers group (plan.push (memberNode field) (some group)) rest

section Members

variable (group : NodeId)

@[simp] theorem size_pushMembers (fields : List (String × Option Constraint)) (plan : Plan) :
    (plan.pushMembers group fields).size = plan.size + fields.length := by
  induction fields generalizing plan with
  | nil => rfl
  | cons field rest ih =>
    rw [pushMembers, ih, size_push, List.length_cons]
    omega

/-- New members leave the nodes that there were. -/
theorem node?_pushMembers_of_lt {id : NodeId} (fields : List (String × Option Constraint)) :
    ∀ {plan : Plan}, id < plan.size → (plan.pushMembers group fields).node? id = plan.node? id := by
  induction fields with
  | nil => intro plan _; rfl
  | cons field rest ih =>
    intro plan old
    rw [pushMembers, ih (by rw [size_push]; exact Nat.lt_succ_of_lt old), node?_push,
      if_neg (Nat.ne_of_lt old)]

/-- New members leave the parents that there were. -/
theorem parent?_pushMembers_of_lt {id : NodeId} (fields : List (String × Option Constraint)) :
    ∀ {plan : Plan}, id < plan.size →
      (plan.pushMembers group fields).parent? id = plan.parent? id := by
  induction fields with
  | nil => intro plan _; rfl
  | cons field rest ih =>
    intro plan old
    rw [pushMembers, ih (by rw [size_push]; exact Nat.lt_succ_of_lt old), parent?_push,
      if_neg (Nat.ne_of_lt old)]

/-- The member for each field stands right where the nodes before it end. -/
theorem member_pushMembers (fields : List (String × Option Constraint)) :
    ∀ (plan : Plan) {index : Nat} {field : String × Option Constraint},
      fields[index]? = some field →
      (plan.pushMembers group fields).node? (plan.size + index) = some (memberNode field) ∧
        (plan.pushMembers group fields).parent? (plan.size + index) = some group := by
  induction fields with
  | nil => intro plan index field found; simp at found
  | cons first rest ih =>
    intro plan index field found
    cases index with
    | zero =>
      obtain rfl : first = field := by simpa using found
      have new : plan.size < (plan.push (memberNode first) (some group)).size := by simp
      rw [pushMembers, Nat.add_zero, node?_pushMembers_of_lt group rest new,
        parent?_pushMembers_of_lt group rest new, node?_push, parent?_push, if_pos rfl, if_pos rfl]
      exact ⟨rfl, rfl⟩
    | succ index =>
      have later := ih (plan.push (memberNode first) (some group))
        (by simpa using found : rest[index]? = some field)
      rw [size_push, Nat.add_assoc, Nat.add_comm 1] at later
      exact later

/-- New members are the last children of their group, in order. -/
theorem children_pushMembers (fields : List (String × Option Constraint)) (plan : Plan)
    (id : NodeId) :
    (plan.pushMembers group fields).children id =
      plan.children id ++ if id = group then List.range' plan.size fields.length else [] := by
  induction fields generalizing plan with
  | nil => simp [pushMembers]
  | cons field rest ih =>
    rw [pushMembers, ih, children_push, size_push, List.length_cons, List.range'_succ]
    by_cases same : id = group
    · simp [same]
    · simp [same, Ne.symm same]

end Members

/-- A group put below a node, with its members right behind it. -/
def attachGroup (plan : Plan) (kind : Quantifier) (fields : List (String × Option Constraint))
    (here : NodeId) : Plan :=
  let members := List.range' (plan.size + 1) fields.length
  (((plan.push (.group kind []) (some here)).pushMembers plan.size fields).mapNode plan.size
    fun _ => .group kind members).mapNode here (Node.holding plan.size)

section AttachGroup

variable (plan : Plan) (kind : Quantifier) (fields : List (String × Option Constraint))
  {here : NodeId}

@[simp] theorem size_attachGroup :
    (plan.attachGroup kind fields here).size = plan.size + 1 + fields.length := by
  simp [attachGroup]

/-- Attaching a group changes only the node that links to it. -/
theorem node?_attachGroup_of_lt {id : NodeId} (old : id < plan.size) :
    (plan.attachGroup kind fields here).node? id =
      if id = here then (plan.node? id).map (Node.holding plan.size) else plan.node? id := by
  have before : (plan.size : NodeId) ≠ id := fun same => Nat.ne_of_lt old same.symm
  have newer : id < (plan.push (.group kind []) (some here)).size := by
    rw [size_push]
    exact Nat.lt_succ_of_lt old
  simp only [attachGroup, node?_mapNode, if_neg before, node?_pushMembers_of_lt _ fields newer,
    node?_push, if_neg (Nat.ne_of_lt old), eq_comm (a := here)]

/-- An attached group has the members that follow it. -/
theorem node?_attachGroup_self (inside : here < plan.size) :
    (plan.attachGroup kind fields here).node? plan.size =
      some (.group kind (List.range' (plan.size + 1) fields.length)) := by
  have newer : plan.size < (plan.push (.group kind []) (some here)).size := by simp
  simp only [attachGroup, node?_mapNode, if_neg (Nat.ne_of_lt inside),
    node?_pushMembers_of_lt _ fields newer, node?_push, ite_true, Option.map_some]

/-- The members of an attached group are those of its fields, in order. -/
theorem node?_attachGroup_member (inside : here < plan.size) {index : Nat}
    {field : String × Option Constraint} (found : fields[index]? = some field) :
    (plan.attachGroup kind fields here).node? (plan.size + 1 + index) =
      some (memberNode field) := by
  have member := (member_pushMembers plan.size fields
    (plan.push (.group kind []) (some here)) found).1
  rw [size_push] at member
  have notHere : here ≠ plan.size + 1 + index := by grind
  have notGroup : (plan.size : NodeId) ≠ plan.size + 1 + index := by grind
  simp only [attachGroup, node?_mapNode, if_neg notHere, if_neg notGroup, member]

/-- Attaching a group leaves the parents that there were. -/
theorem parent?_attachGroup_of_lt {id : NodeId} (old : id < plan.size) :
    (plan.attachGroup kind fields here).parent? id = plan.parent? id := by
  have newer : id < (plan.push (.group kind []) (some here)).size := by
    rw [size_push]
    exact Nat.lt_succ_of_lt old
  simp only [attachGroup, parent?_mapNode, parent?_pushMembers_of_lt _ fields newer, parent?_push,
    if_neg (Nat.ne_of_lt old)]

/-- An attached group is a child of the node it is attached to. -/
theorem parent?_attachGroup_self :
    (plan.attachGroup kind fields here).parent? plan.size = some here := by
  have newer : plan.size < (plan.push (.group kind []) (some here)).size := by simp
  simp only [attachGroup, parent?_mapNode, parent?_pushMembers_of_lt _ fields newer, parent?_push,
    ite_true]

/-- The members of an attached group are its children. -/
theorem parent?_attachGroup_member {index : Nat} {field : String × Option Constraint}
    (found : fields[index]? = some field) :
    (plan.attachGroup kind fields here).parent? (plan.size + 1 + index) = some plan.size := by
  have member := (member_pushMembers plan.size fields
    (plan.push (.group kind []) (some here)) found).2
  rw [size_push] at member
  simp only [attachGroup, parent?_mapNode, member]

end AttachGroup

/-- A quantifier put after a node, with what the node led on to below it. -/
def splice (plan : Plan) (kind : Quantifier) (here : NodeId) (moved? : Option NodeId) : Plan :=
  let widened := plan.attach (.quantifier kind moved?.toList) here Node.followedBy
  match moved? with
  | none => widened
  | some moved => widened.setParent moved plan.size

section Splice

variable (plan : Plan) (kind : Quantifier) {here : NodeId}

@[simp] theorem size_splice (moved? : Option NodeId) :
    (plan.splice kind here moved?).size = plan.size + 1 := by
  cases moved? <;> simp [splice]

/-- Splicing a quantifier in adds it and changes only the node that leads to it. -/
theorem node?_splice (inside : here < plan.size) (moved? : Option NodeId) (id : NodeId) :
    (plan.splice kind here moved?).node? id =
      if id = plan.size then some (.quantifier kind moved?.toList)
      else if id = here then (plan.node? id).map (Node.followedBy plan.size)
      else plan.node? id := by
  cases moved? with
  | none => exact node?_attach plan _ _ inside id
  | some moved =>
    rw [splice, node?_setParent]
    exact node?_attach plan _ _ inside id

theorem parent?_splice_none (id : NodeId) :
    (plan.splice kind here none).parent? id =
      if id = plan.size then some here else plan.parent? id :=
  parent?_attach plan _ _ id

/-- A quantifier that is spliced in takes the place above the node that was next. -/
theorem parent?_splice_some {moved : NodeId} (old : moved < plan.size) (id : NodeId) :
    (plan.splice kind here (some moved)).parent? id =
      if id = moved then some plan.size
      else if id = plan.size then some here
      else plan.parent? id := by
  have newer : moved < (plan.attach (.quantifier kind [moved]) here Node.followedBy).size := by
    rw [size_attach]
    exact Nat.lt_succ_of_lt old
  exact (parent?_setParent _ _ _ newer).trans (by rw [parent?_attach])

/-- A quantifier is spliced in with nothing below it like any other node is attached. -/
theorem splice_none (here : NodeId) :
    plan.splice kind here none = plan.attach (.quantifier kind []) here Node.followedBy :=
  rfl

/-- Only what the node led on to changes its parent, so other nodes keep their children. -/
theorem children_splice_some_of_ne {moved : NodeId} (link : plan.parent? moved = some here)
    {id : NodeId} (different : id ≠ here) (old : id ≠ plan.size) :
    (plan.splice kind here (some moved)).children id = plan.children id := by
  rw [children_eq_filter, children_eq_filter, ids, ids, size_splice, List.range_succ,
    List.filter_append]
  have notNew : moved ≠ plan.size := Nat.ne_of_lt (lt_size_of_parent? link)
  have last : ((plan.splice kind here (some moved)).parent? plan.size == some id) = false := by
    rw [parent?_splice_some plan kind (lt_size_of_parent? link), if_neg notNew.symm, if_pos rfl]
    exact beq_false_of_ne fun same => different (Option.some.inj same).symm
  rw [List.filter_cons, last, List.filter_nil, if_neg Bool.false_ne_true, List.append_nil]
  apply List.filter_congr
  intro child member
  rw [parent?_splice_some plan kind (lt_size_of_parent? link),
    if_neg (Nat.ne_of_lt (List.mem_range.mp member))]
  by_cases same : child = moved
  · rw [if_pos same, same, link, beq_false_of_ne fun equal => old (Option.some.inj equal).symm,
      beq_false_of_ne fun equal => different (Option.some.inj equal).symm]
  · rw [if_neg same]

/-- Below the new quantifier stands what the node led on to before. -/
theorem children_splice_some_self {moved : NodeId} (link : plan.parent? moved = some here)
    (unused : plan.children plan.size = []) (inside : here < plan.size) :
    (plan.splice kind here (some moved)).children plan.size = [moved] := by
  have moves := lt_size_of_parent? link
  have parents (child : NodeId) :
      (plan.splice kind here (some moved)).parent? child = some plan.size ↔ child = moved := by
    rw [parent?_splice_some plan kind moves]
    by_cases same : child = moved
    · simp [same]
    · by_cases new : child = plan.size
      · simp [new, Nat.ne_of_lt inside]
      · have none : plan.parent? child ≠ some plan.size := by
          intro above
          have member := mem_children.mpr above
          rw [unused] at member
          exact List.not_mem_nil member
        simp [same, new, none]
  exact children_eq_singleton parents

end Splice

end Plan

end TraversalQuery
