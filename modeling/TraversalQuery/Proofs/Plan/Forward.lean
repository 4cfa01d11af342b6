import TraversalQuery.Proofs.Plan.WellFormed

/-!
# Walking a plan forward

Whoever reads a plan starts at its root and follows the links of its nodes. In a threaded plan the
links agree with the parents of the nodes: each node stands in the list of the node above it, and in
no other. Only properties right below the start are loose, as the start leads on to one step at
most. So a walk along the links comes to every node that is not loose, and to each of them once.
-/

namespace TraversalQuery

namespace Node

/-- The nodes that stand after a node: those it leads on to, or the members of a group. -/
def forward : Node → List NodeId
  | .group _ members => members
  | other => other.next

/-- The next node is one of those that a node leads forward to. -/
theorem mem_forward_of_successor? {node : Node} {id : NodeId} (leads : node.successor? = some id) :
    id ∈ node.forward := by
  cases node with
  | start next? => exact Option.mem_toList.mpr leads
  | entity step next? => exact Option.mem_toList.mpr leads
  | relation step next? => exact Option.mem_toList.mpr leads
  | _ => contradiction

@[simp] theorem isProperty_bare (node : Node) : node.bare.isProperty = node.isProperty := by
  cases node <;> rfl

end Node

namespace Plan

variable {plan : Plan}

/-- The nodes that stand after the node of a number. -/
def forward (plan : Plan) (id : NodeId) : List NodeId :=
  ((plan.node? id).map Node.forward).getD []

/-- What stands after each node of a plan, all in one list. -/
def links (plan : Plan) : List NodeId :=
  plan.ids.flatMap plan.forward

/-- Whether the node of a number is where a traversal starts. -/
def isStart (plan : Plan) (id : NodeId) : Bool :=
  (plan.node? id).any Node.isStart

/-- Whether the node of a number is a property right below a start. -/
def isLoose (plan : Plan) (id : NodeId) : Bool :=
  (plan.node? id).any Node.isProperty && (plan.parent? id).any plan.isStart

/-- The nodes on a walk from a node along the links, each before those after it, no more than
`limit` deep. -/
def walkForward (plan : Plan) : Nat → NodeId → List NodeId
  | 0, _ => []
  | limit + 1, id => id :: (plan.forward id).flatMap (plan.walkForward limit)

/-- What holds of a plan whose nodes, the loose ones apart, stand in the list of the node above
them. -/
structure Threaded (plan : Plan) : Prop where
  formed : plan.WellFormed
  nodup : ∀ id, (plan.forward id).Nodup
  mem_forward : ∀ {id child : NodeId},
    child ∈ plan.forward id ↔ plan.parent? child = some id ∧ plan.isLoose child = false

/-- The ids of a plan are those below its size. -/
theorem mem_ids {id : NodeId} : id ∈ plan.ids ↔ id < plan.size :=
  List.mem_range

namespace Ascends

variable {id : NodeId} {path : List NodeId}

/-- A path to the root passes the node it begins at. -/
theorem mem_self (ascent : plan.Ascends id path) : id ∈ path := by
  cases ascent <;> exact List.mem_cons_self

/-- Above a node the path goes on with that of its parent. -/
theorem parent (ascent : plan.Ascends id path) {parent : NodeId}
    (link : plan.parent? id = some parent) :
    ∃ above, path = id :: above ∧ plan.Ascends parent above := by
  cases ascent with
  | root _ top => rw [top] at link; contradiction
  | above link' rest =>
    obtain rfl := Option.some.inj (link'.symm.trans link)
    exact ⟨_, rfl, rest⟩

end Ascends

theorem nodup_toList (id? : Option NodeId) : id?.toList.Nodup := by
  cases id? with
  | none => exact List.nodup_nil
  | some id => exact List.nodup_singleton id

/-- Where a plan leads forward from a node is read off the node. -/
theorem forward_eq {id : NodeId} {node : Node} (found : plan.node? id = some node) :
    plan.forward id = node.forward := by
  rw [forward, found, Option.map_some, Option.getD_some]

namespace WellFormed

/-- In a well-formed plan only the root is a start. -/
theorem isStart_iff (formed : plan.WellFormed) {id : NodeId} :
    plan.isStart id = true ↔ id = root := by
  constructor
  · intro starts
    obtain ⟨node, found, starts⟩ := (Option.any_eq_true _ _).mp starts
    cases node with
    | start => exact formed.oneStart found
    | _ => contradiction
  · rintro rfl
    obtain ⟨next?, found⟩ := formed.startsAtRoot
    rw [isStart, found]
    rfl

/-- Every node but the root has one above it. -/
theorem exists_parent? (formed : plan.WellFormed) {id : NodeId} (inside : id < plan.size)
    (other : id ≠ root) : ∃ parent, plan.parent? id = some parent := by
  obtain ⟨path, ascent⟩ := formed.rooted inside
  cases ascent with
  | root => contradiction
  | above link rest => exact ⟨_, link⟩

/-- Nothing stands below a property. -/
theorem not_loose_of_parent? (formed : plan.WellFormed) {id child : NodeId}
    (link : plan.parent? child = some id) : plan.isLoose id = false := by
  obtain ⟨node, found⟩ := exists_node? (formed.parent_lt_size link)
  cases node with
  | property held => exact absurd found (formed.noneBelowProperty link)
  | _ => rw [isLoose, found]; rfl

/-- The root of a well-formed plan is not loose. -/
theorem not_loose_root (formed : plan.WellFormed) : plan.isLoose root = false := by
  obtain ⟨next?, found⟩ := formed.startsAtRoot
  rw [isLoose, found]
  rfl

/-- In a well-formed plan no node leads to another twice. -/
theorem nodup_forward (formed : plan.WellFormed) (id : NodeId) : (plan.forward id).Nodup := by
  cases found : plan.node? id with
  | none => rw [forward, found]; exact List.nodup_nil
  | some node =>
    rw [forward_eq found]
    cases node with
    | start next? => exact nodup_toList next?
    | entity step next? => exact nodup_toList next?
    | relation step next? => exact nodup_toList next?
    | property held => exact List.nodup_nil
    | group kind members => rw [Node.forward, formed.group found]; exact nodup_children plan id
    | quantifier kind next =>
      rw [formed.fan found]
      exact nodup_children plan id

/-- What stands in the list of a node is below it, and is not a property below a start. -/
theorem of_mem_forward (formed : plan.WellFormed) {id child : NodeId}
    (member : child ∈ plan.forward id) :
    plan.parent? child = some id ∧ plan.isLoose child = false := by
  cases found : plan.node? id with
  | none =>
    rw [forward, found] at member
    exact absurd member List.not_mem_nil
  | some node =>
    rw [forward_eq found] at member
    -- Quantifiers and groups are no starts, and what another node leads on to is no property.
    have listed (starts : node.isStart = false) (member : child ∈ plan.children id) :
        plan.parent? child = some id ∧ plan.isLoose child = false := by
      have link := mem_children.mp member
      refine ⟨link, ?_⟩
      rw [isLoose, link, Option.any_some, isStart, found, Option.any_some, starts, Bool.and_false]
    have led (leads : node.successor? = some child) :
        plan.parent? child = some id ∧ plan.isLoose child = false := by
      obtain ⟨link, below, isBelow, inner⟩ := formed.successor found leads
      refine ⟨link, ?_⟩
      cases below with
      | property held => contradiction
      | _ => rw [isLoose, isBelow]; rfl
    cases node with
    | start next? => exact led (Option.mem_toList.mp member)
    | entity step next? => exact led (Option.mem_toList.mp member)
    | relation step next? => exact led (Option.mem_toList.mp member)
    | property held => exact absurd member List.not_mem_nil
    | group kind members => exact listed rfl (formed.group found ▸ member)
    | quantifier kind next => exact listed rfl (formed.fan found ▸ member)

end WellFormed

namespace Threaded

/-- No node stands in two lists, and only the start and loose nodes stand in none. -/
theorem perm_links (threaded : plan.Threaded) :
    plan.links.Perm (plan.ids.filter fun id => !plan.isStart id && !plan.isLoose id) := by
  refine (List.perm_ext_iff_of_nodup ?_ (plan.nodup_ids.filter _)).mpr fun child => ?_
  · refine List.nodup_flatMap.mpr ⟨fun id _ => threaded.nodup id, ?_⟩
    refine plan.nodup_ids.imp fun {id other} different child member member' => ?_
    have link := (threaded.mem_forward.mp member).1
    rw [(threaded.mem_forward.mp member').1] at link
    exact different (Option.some.inj link).symm
  · simp only [links, List.mem_flatMap, List.mem_filter, threaded.mem_forward, mem_ids,
      Bool.and_eq_true, Bool.not_eq_true', ← Bool.not_eq_true (plan.isStart child),
      threaded.formed.isStart_iff]
    constructor
    · rintro ⟨id, _, link, tight⟩
      refine ⟨lt_size_of_parent? link, ?_, tight⟩
      rintro rfl
      rw [threaded.formed.rootOnTop] at link
      contradiction
    · rintro ⟨inside, other, tight⟩
      obtain ⟨id, link⟩ := threaded.formed.exists_parent? inside other
      exact ⟨id, threaded.formed.parent_lt_size link, link, tight⟩

/-- A walk comes to nodes that are not loose. -/
theorem tight_of_mem (threaded : plan.Threaded) (limit : Nat) :
    ∀ {id target : NodeId}, id < plan.size → plan.isLoose id = false →
      target ∈ plan.walkForward limit id → target < plan.size ∧ plan.isLoose target = false := by
  induction limit with
  | zero => exact fun _ _ member => absurd member List.not_mem_nil
  | succ limit ih =>
    intro id target inside tight member
    rcases List.mem_cons.mp member with rfl | later
    · exact ⟨inside, tight⟩
    · obtain ⟨child, isChild, later⟩ := List.mem_flatMap.mp later
      obtain ⟨link, tight⟩ := threaded.mem_forward.mp isChild
      exact ih (lt_size_of_parent? link) tight later

/-- A walk comes to nothing that is not below its first node. -/
theorem mem_of_ascends (threaded : plan.Threaded) (limit : Nat) :
    ∀ {id target : NodeId} {path : List NodeId}, target ∈ plan.walkForward limit id →
      plan.Ascends target path → id ∈ path := by
  induction limit with
  | zero => exact fun member => absurd member List.not_mem_nil
  | succ limit ih =>
    intro id target path member ascent
    rcases List.mem_cons.mp member with rfl | later
    · exact ascent.mem_self
    · obtain ⟨child, isChild, later⟩ := List.mem_flatMap.mp later
      obtain ⟨rest, ascends, suffix⟩ := ascent.of_mem (ih later ascent)
      obtain ⟨above, rfl, up⟩ := ascends.parent (threaded.mem_forward.mp isChild).1
      exact suffix.mem (List.mem_cons_of_mem _ up.mem_self)

/-- Nothing is below two children of a node. -/
theorem eq_of_mem_of_mem (threaded : plan.Threaded) {limit : Nat} {id child other target : NodeId}
    (isChild : child ∈ plan.forward id) (isOther : other ∈ plan.forward id)
    (member : target ∈ plan.walkForward limit child)
    (member' : target ∈ plan.walkForward limit other) : child = other := by
  obtain ⟨link, tight⟩ := threaded.mem_forward.mp isChild
  have link' := (threaded.mem_forward.mp isOther).1
  obtain ⟨path, ascent⟩ := threaded.formed.rooted
    (threaded.tight_of_mem limit (lt_size_of_parent? link) tight member).1
  obtain ⟨first, ascends, suffix⟩ := ascent.of_mem (threaded.mem_of_ascends limit member ascent)
  obtain ⟨second, ascends', suffix'⟩ := ascent.of_mem (threaded.mem_of_ascends limit member' ascent)
  obtain ⟨above, rfl, up⟩ := ascends.parent link
  obtain ⟨above', rfl, up'⟩ := ascends'.parent link'
  obtain rfl := up.unique up'
  have same := (List.suffix_of_suffix_length_le suffix suffix' (Nat.le_refl _)).eq_of_length rfl
  exact (List.cons.inj same).1

/-- Walking forward passes no node twice. -/
theorem nodup_walkForward (threaded : plan.Threaded) (limit : Nat) :
    ∀ id, (plan.walkForward limit id).Nodup := by
  induction limit with
  | zero => exact fun _ => List.nodup_nil
  | succ limit ih =>
    intro id
    refine List.nodup_cons.mpr ⟨fun again => ?_, List.nodup_flatMap.mpr ⟨fun _ _ => ih _, ?_⟩⟩
    · -- A node that is below one of its own children would stand twice on the path of the child.
      obtain ⟨child, isChild, later⟩ := List.mem_flatMap.mp again
      have link := (threaded.mem_forward.mp isChild).1
      obtain ⟨path, ascent⟩ := threaded.formed.rooted (lt_size_of_parent? link)
      obtain ⟨above, rfl, ascends⟩ := ascent.parent link
      exact (List.nodup_cons.mp ascent.nodup).1 (threaded.mem_of_ascends limit later ascends)
    · refine (threaded.nodup id).imp_of_mem
        fun isChild isOther different target member member' => ?_
      exact different (threaded.eq_of_mem_of_mem isChild isOther member member')

/-- What stands in the list of a node on a walk is on a walk that is one step deeper. -/
theorem mem_walkForward_succ {parent child : NodeId} (isChild : child ∈ plan.forward parent)
    (limit : Nat) : ∀ {id : NodeId}, parent ∈ plan.walkForward limit id →
      child ∈ plan.walkForward (limit + 1) id := by
  induction limit with
  | zero => exact fun member => absurd member List.not_mem_nil
  | succ limit ih =>
    intro id member
    rcases List.mem_cons.mp member with rfl | later
    · exact List.mem_cons_of_mem _ (List.mem_flatMap.mpr ⟨child, isChild, List.mem_cons_self⟩)
    · obtain ⟨passed, isPassed, later⟩ := List.mem_flatMap.mp later
      exact List.mem_cons_of_mem _ (List.mem_flatMap.mpr ⟨passed, isPassed, ih later⟩)

/-- A walk from the root comes to every node that is not loose, down the path of the node. -/
theorem mem_walkForward (threaded : plan.Threaded) {target : NodeId} {path : List NodeId}
    (ascent : plan.Ascends target path) (tight : plan.isLoose target = false) :
    ∀ {limit : Nat}, path.length ≤ limit → target ∈ plan.walkForward limit root := by
  induction ascent with
  | root =>
    intro limit room
    obtain ⟨limit, rfl⟩ := Nat.exists_eq_add_of_le' room
    exact List.mem_cons_self
  | above link rest ih =>
    intro limit room
    obtain ⟨limit, rfl⟩ := Nat.exists_eq_add_of_le' room
    have above := ih (threaded.formed.not_loose_of_parent? link) (Nat.le_add_left _ limit)
    exact mem_walkForward_succ (threaded.mem_forward.mpr ⟨link, tight⟩) _ above

/-- **A walk from the root comes to every node that is not loose, and to each of them once.** -/
theorem perm_walkForward (threaded : plan.Threaded) {limit : Nat} (room : plan.size ≤ limit) :
    (plan.walkForward limit root).Perm (plan.ids.filter fun id => !plan.isLoose id) := by
  refine (List.perm_ext_iff_of_nodup (threaded.nodup_walkForward limit root)
    (plan.nodup_ids.filter _)).mpr fun target => ?_
  rw [List.mem_filter, mem_ids, Bool.not_eq_true']
  constructor
  · exact threaded.tight_of_mem limit threaded.formed.root_lt_size threaded.formed.not_loose_root
  · rintro ⟨inside, tight⟩
    obtain ⟨path, ascent⟩ := threaded.formed.rooted inside
    exact threaded.mem_walkForward ascent tight (ascent.length_le_size.trans room)

end Threaded

end Plan

end TraversalQuery
