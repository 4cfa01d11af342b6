import TraversalQuery.Proofs.Plan.WellFormed

/-!
# Plans with one more node

A new node is put below one that is no leaf, and that one learns of it: a quantifier appends it to
what it leads on to, another node is followed by it unless it is a leaf. Nothing else about the
nodes of before changes, so what a node is now tells what it was.
-/

namespace TraversalQuery

namespace Node

/-- How a node learns of one more below it: leaves count only below quantifiers. -/
def linkTo (node : Node) : NodeId → Node → Node :=
  if node.isLeaf then holding else followedBy

/-- A property is held by the node above it. -/
theorem linkTo_of_isLeaf {node : Node} (leaf : node.isLeaf = true) : node.linkTo = holding := by
  rw [linkTo, if_pos leaf]

/-- A node that others can follow is followed from the node above it. -/
theorem linkTo_of_inner {node : Node} (inner : node.isLeaf = false) : node.linkTo = followedBy := by
  rw [linkTo, inner, if_neg Bool.false_ne_true]

@[simp] theorem bare_linkTo (node : Node) (id : NodeId) (held : Node) :
    (node.linkTo id held).bare = held.bare := by
  cases leaf : node.isLeaf with
  | true => rw [linkTo_of_isLeaf leaf, bare_holding]
  | false => rw [linkTo_of_inner leaf, bare_followedBy]

/-- A quantifier leads on to everything put below it. -/
@[simp] theorem linkTo_quantifier (node : Node) (id : NodeId) (kind : Quantifier)
    (next : List NodeId) :
    node.linkTo id (.quantifier kind next) = .quantifier kind (next ++ [id]) := by
  cases leaf : node.isLeaf with
  | true => rw [linkTo_of_isLeaf leaf, holding]
  | false => rw [linkTo_of_inner leaf, followedBy]

/-- Whether a node is a leaf does not depend on where it leads. -/
theorem isLeaf_of_bare {node other : Node} (marks : node.bare = other.bare) :
    node.isLeaf = other.isLeaf := by
  rw [← isLeaf_bare node, marks, isLeaf_bare]

/-- Whether a node is a quantifier does not depend on where it leads. -/
theorem isQuantifier_of_bare {node other : Node} (marks : node.bare = other.bare) :
    node.isQuantifier = other.isQuantifier := by
  rw [← isQuantifier_bare node, marks, isQuantifier_bare]

theorem start_of_bare {node : Node} {next? : Option NodeId}
    (marks : node.bare = (start next?).bare) : ∃ before?, node = start before? := by
  cases node <;> simp [bare] at marks
  exact ⟨_, rfl⟩

theorem property_of_bare {node : Node} {held : Property}
    (marks : node.bare = (property held).bare) : node = property held := by
  cases node <;> simp [bare] at marks
  rw [marks]

theorem quantifier_of_bare {node : Node} {kind : Quantifier} {next : List NodeId}
    (marks : node.bare = (quantifier kind next).bare) :
    ∃ before, node = quantifier kind before := by
  cases node <;> simp [bare] at marks
  exact ⟨_, by rw [marks]⟩

/-- A node that is neither leaf nor quantifier leads on to the last node that followed it. -/
theorem successor?_followedBy {node : Node} (id : NodeId) (inner : node.isLeaf = false)
    (linear : node.isQuantifier = false) : (node.followedBy id).successor? = some id := by
  cases node with
  | start => rfl
  | entity => rfl
  | relation => rfl
  | property => exact absurd inner Bool.noConfusion
  | group => exact absurd inner Bool.noConfusion
  | quantifier => exact absurd linear Bool.noConfusion

/-- Quantifiers have no next node. -/
theorem isQuantifier_of_successor? {node : Node} {target : NodeId}
    (leads : node.successor? = some target) : node.isQuantifier = false := by
  cases node with
  | quantifier => simp [successor?] at leads
  | _ => rfl

@[simp] theorem successor?_bare (node : Node) : node.bare.successor? = none := by
  cases node <;> rfl

/-- A node that was linked to another one has it or the node it had before as its next. -/
theorem successor?_linkTo {node held : Node} {id target : NodeId} (inner : held.isLeaf = false)
    (leads : (node.linkTo id held).successor? = some target) :
    node.isLeaf = false ∧ target = id ∨ node.isLeaf = true ∧ held.successor? = some target := by
  cases leaf : node.isLeaf with
  | true =>
    rw [linkTo_of_isLeaf leaf] at leads
    refine .inr ⟨rfl, ?_⟩
    cases held <;> exact leads
  | false =>
    rw [linkTo_of_inner leaf] at leads
    have linear := isQuantifier_of_successor? leads
    rw [isQuantifier_of_bare (bare_followedBy id held)] at linear
    rw [successor?_followedBy id inner linear] at leads
    exact .inl ⟨rfl, (Option.some.inj leads).symm⟩

/-- A node has a next one after it was linked to a node that others can follow. -/
theorem isSome_successor?_linkTo {node held : Node} {id : NodeId} (inner : held.isLeaf = false)
    (linear : held.isQuantifier = false) (leads : node.isLeaf = false ∨ held.successor?.isSome) :
    (node.linkTo id held).successor?.isSome := by
  cases leaf : node.isLeaf with
  | true =>
    rw [linkTo_of_isLeaf leaf]
    rw [leaf] at leads
    have led := leads.resolve_left Bool.noConfusion
    cases held <;> exact led
  | false =>
    rw [linkTo_of_inner leaf, successor?_followedBy id inner linear]
    rfl

end Node

namespace Plan

variable {plan later : Plan}

/-- A node at which a builder can insert: there is one of the number, and it is no leaf. -/
def Open (plan : Plan) (here : NodeId) : Prop :=
  ∃ held, plan.node? here = some held ∧ held.isLeaf = false

/-- Nodes that are open to others are in the plan. -/
theorem Open.lt_size {here : NodeId} (isOpen : plan.Open here) : here < plan.size := by
  obtain ⟨_, found, _⟩ := isOpen
  exact lt_size_of_node? found

/-- A later plan has one more node, and one node of before has learned of it. -/
structure Gains (plan later : Plan) (node : Node) (here : NodeId)
    (link : NodeId → Node → Node) : Prop where
  sizes : later.size = plan.size + 1
  inside : here < plan.size
  nodes : ∀ id, later.node? id =
    if id = plan.size then some node
    else if id = here then (plan.node? id).map (link plan.size)
    else plan.node? id

namespace Gains

variable {node : Node} {here : NodeId} {link : NodeId → Node → Node}

/-- The node that was gained has the first id that was free. -/
theorem fresh (gains : plan.Gains later node here link) : later.node? plan.size = some node := by
  rw [gains.nodes, if_pos rfl]

/-- The node above links to the one that was gained. -/
theorem linked (gains : plan.Gains later node here link) {held : Node}
    (found : plan.node? here = some held) : later.node? here = some (link plan.size held) := by
  rw [gains.nodes, if_neg (Nat.ne_of_lt gains.inside), if_pos rfl, found, Option.map_some]

/-- Other nodes are kept as they were. -/
theorem kept (gains : plan.Gains later node here link) {id : NodeId} (old : id ≠ plan.size)
    (other : id ≠ here) : later.node? id = plan.node? id := by
  rw [gains.nodes, if_neg old, if_neg other]

variable (marks : ∀ id held, (link id held).bare = held.bare)
include marks

/-- Nodes stay what they are; only where they lead changes. -/
theorem before (gains : plan.Gains later node here link) {id : NodeId} {now : Node}
    (old : id ≠ plan.size) (found : later.node? id = some now) :
    ∃ was, plan.node? id = some was ∧ was.bare = now.bare ∧
      now = if id = here then link plan.size was else was := by
  rw [gains.nodes, if_neg old] at found
  by_cases same : id = here
  · rw [if_pos same] at found
    obtain ⟨was, wasAt, rfl⟩ := Option.map_eq_some_iff.mp found
    exact ⟨was, wasAt, (marks _ _).symm, by rw [if_pos same]⟩
  · rw [if_neg same] at found
    exact ⟨now, found, rfl, by rw [if_neg same]⟩

/-- Nodes differ in nothing but where they lead. -/
theorem after (gains : plan.Gains later node here link) {id : NodeId} {was : Node}
    (found : plan.node? id = some was) :
    ∃ now, later.node? id = some now ∧ now.bare = was.bare := by
  have old := Nat.ne_of_lt (lt_size_of_node? found)
  by_cases same : id = here
  · subst same
    exact ⟨_, gains.linked found, marks _ _⟩
  · exact ⟨was, (gains.kept old same).trans found, rfl⟩

/-- A start was there before, unless it is the node that was gained. -/
theorem start (gains : plan.Gains later node here link) {id : NodeId} {next? : Option NodeId}
    (found : later.node? id = some (.start next?)) :
    id = plan.size ∧ node = .start next? ∨ ∃ before?, plan.node? id = some (.start before?) := by
  by_cases new : id = plan.size
  · rw [new, gains.fresh] at found
    exact .inl ⟨new, Option.some.inj found⟩
  · obtain ⟨was, wasAt, same, _⟩ := gains.before marks new found
    obtain ⟨before?, rfl⟩ := Node.start_of_bare same
    exact .inr ⟨before?, wasAt⟩

/-- A property was there before, unless it is the node that was gained. -/
theorem property (gains : plan.Gains later node here link) {id : NodeId} {held : Property}
    (found : later.node? id = some (.property held)) :
    id = plan.size ∧ node = .property held ∨ plan.node? id = some (.property held) := by
  by_cases new : id = plan.size
  · rw [new, gains.fresh] at found
    exact .inl ⟨new, Option.some.inj found⟩
  · obtain ⟨was, wasAt, same, _⟩ := gains.before marks new found
    rw [Node.property_of_bare same] at wasAt
    exact .inr wasAt

/-- Nothing is inserted at a leaf, so groups of before hold what they held. -/
theorem group (gains : plan.Gains later node here link) (isOpen : plan.Open here) {id : NodeId}
    {kind : Quantifier} {members : List NodeId}
    (found : later.node? id = some (.group kind members)) :
    id = plan.size ∧ node = .group kind members ∨
      id ≠ here ∧ id ≠ plan.size ∧ plan.node? id = some (.group kind members) := by
  by_cases new : id = plan.size
  · rw [new, gains.fresh] at found
    exact .inl ⟨new, Option.some.inj found⟩
  · obtain ⟨was, wasAt, same, now⟩ := gains.before marks new found
    have apart : id ≠ here := by
      rintro rfl
      obtain ⟨held, atHere, inner⟩ := isOpen
      obtain rfl := Option.some.inj (wasAt.symm.trans atHere)
      rw [Node.isLeaf_of_bare same] at inner
      simp [Node.isLeaf] at inner
    rw [if_neg apart] at now
    exact .inr ⟨apart, new, now ▸ wasAt⟩

/-- A quantifier that learns of the new node leads on to it after all others. -/
theorem quantifier (gains : plan.Gains later node here link)
    (appends : ∀ id kind next, link id (.quantifier kind next) = .quantifier kind (next ++ [id]))
    {id : NodeId} {kind : Quantifier} {next : List NodeId}
    (found : later.node? id = some (.quantifier kind next)) :
    id = plan.size ∧ node = .quantifier kind next ∨
      id ≠ plan.size ∧ ∃ before, plan.node? id = some (.quantifier kind before) ∧
        next = before ++ if id = here then [plan.size] else [] := by
  by_cases new : id = plan.size
  · rw [new, gains.fresh] at found
    exact .inl ⟨new, Option.some.inj found⟩
  · obtain ⟨was, wasAt, same, now⟩ := gains.before marks new found
    obtain ⟨before, rfl⟩ := Node.quantifier_of_bare same
    refine .inr ⟨new, before, wasAt, ?_⟩
    by_cases at' : id = here
    · rw [if_pos at', appends] at now
      rw [if_pos at', (Node.quantifier.inj now).2]
    · rw [if_neg at'] at now
      rw [if_neg at', (Node.quantifier.inj now).2, List.append_nil]

end Gains

end Plan

end TraversalQuery
