import TraversalQuery.Plan.Invariant
import TraversalQuery.Proofs.Plan.Edits

/-!
# Well-formed plans

What every plan keeps while it is built. It says more than the check of a plan asks for: a
quantifier leads on to exactly the nodes below it, a group holds exactly the nodes below it, and
another node leads on as soon as a step or a quantifier stands below it. Each edit that a builder
makes keeps a plan well formed, and nothing is wrong with a well-formed plan.
-/

namespace TraversalQuery

namespace Plan

variable {plan : Plan}

/-- A plan whose nodes form one tree below the start, with links that agree with it. -/
structure WellFormed (plan : Plan) : Prop where
  startsAtRoot : ∃ next?, plan.node? root = some (.start next?)
  rootOnTop : plan.parent? root = none
  oneStart : ∀ {id next?}, plan.node? id = some (.start next?) → id = root
  rooted : ∀ {id}, id < plan.size → plan.Rooted id
  noneBelowProperty : ∀ {id parent held}, plan.parent? id = some parent →
    plan.node? parent ≠ some (.property held)
  successor : ∀ {id node target}, plan.node? id = some node → node.successor? = some target →
    plan.parent? target = some id ∧
      ∃ below, plan.node? target = some below ∧ below.isLeaf = false
  leadsOn : ∀ {id node child below}, plan.node? id = some node → node.isQuantifier = false →
    plan.parent? child = some id → plan.node? child = some below → below.isLeaf = false →
    node.successor?.isSome
  fan : ∀ {id kind next}, plan.node? id = some (.quantifier kind next) → next = plan.children id
  group : ∀ {id kind members}, plan.node? id = some (.group kind members) →
    members = plan.children id
  memberPlaces : ∀ {id kind members}, plan.node? id = some (.group kind members) →
    members = List.range' (id + 1) members.length
  memberProperty : ∀ {id kind members member}, plan.node? id = some (.group kind members) →
    member ∈ members → ∃ held, plan.node? member = some (.property held)

namespace WellFormed

theorem parent_lt_size (formed : plan.WellFormed) {id parent : NodeId}
    (link : plan.parent? id = some parent) : parent < plan.size :=
  ((formed.rooted (lt_size_of_parent? link)).parent link).lt_size

/-- A well-formed plan has a root. -/
theorem root_lt_size (formed : plan.WellFormed) : root < plan.size := by
  obtain ⟨_, found⟩ := formed.startsAtRoot
  exact lt_size_of_node? found

/-- Nothing stands below a number that no node has yet. -/
theorem children_size (formed : plan.WellFormed) : plan.children plan.size = [] := by
  apply List.eq_nil_iff_forall_not_mem.mpr
  intro child member
  exact Nat.lt_irrefl _ (formed.parent_lt_size (mem_children.mp member))

theorem successor_lt_size (formed : plan.WellFormed) {id target : NodeId} {node : Node}
    (found : plan.node? id = some node) (leads : node.successor? = some target) :
    target < plan.size :=
  lt_size_of_parent? (formed.successor found leads).1

end WellFormed

/-- Paths to the root stay as they are while nodes come in that are not on them. -/
theorem Ascends.of_parents {later : Plan} (grown : plan.size ≤ later.size)
    (parents : ∀ id, id < plan.size → later.parent? id = plan.parent? id) {id : NodeId}
    {path : List NodeId} (ascent : plan.Ascends id path) : later.Ascends id path := by
  induction ascent with
  | root present top =>
    exact .root (Nat.lt_of_lt_of_le present grown) ((parents _ present).trans top)
  | above link rest ih =>
    exact .above ((parents _ (lt_size_of_parent? link)).trans link) ih

/-- A node keeps its path to the root in a plan that keeps the parents. -/
theorem Rooted.of_parents {later : Plan} (grown : plan.size ≤ later.size)
    (parents : ∀ id, id < plan.size → later.parent? id = plan.parent? id) {id : NodeId}
    (rooted : plan.Rooted id) : later.Rooted id := by
  obtain ⟨path, ascent⟩ := rooted
  exact ⟨path, ascent.of_parents grown parents⟩

/-- A plan that is nothing but its start is well formed. -/
theorem wellFormed_start (name? ontology? : Option String) :
    WellFormed ⟨name?, ontology?, [⟨.start none, none⟩]⟩ := by
  have only {id : NodeId} {node : Node}
      (found : Plan.node? ⟨name?, ontology?, [⟨.start none, none⟩]⟩ id = some node) :
      id = root ∧ node = .start none := by
    have first := lt_size_of_node? found
    obtain rfl : id = 0 := Nat.lt_one_iff.mp first
    exact ⟨rfl, (Option.some.inj found).symm⟩
  have orphan (id : NodeId) :
      Plan.parent? ⟨name?, ontology?, [⟨.start none, none⟩]⟩ id = none := by
    cases id <;> rfl
  constructor
  case startsAtRoot => exact ⟨none, rfl⟩
  case rootOnTop => rfl
  case oneStart => intro id next? found; exact (only found).1
  case rooted =>
    intro id inside
    obtain rfl : id = 0 := Nat.lt_one_iff.mp inside
    exact ⟨_, .root inside rfl⟩
  case noneBelowProperty => intro id parent held link; rw [orphan] at link; contradiction
  case successor =>
    intro id node target found leads
    rw [(only found).2] at leads
    contradiction
  case leadsOn => intro id node child below _ _ link; rw [orphan] at link; contradiction
  case fan => intro id kind next found; exact absurd (only found).2 (by simp)
  case group => intro id kind members found; exact absurd (only found).2 (by simp)
  case memberPlaces => intro id kind members found; exact absurd (only found).2 (by simp)
  case memberProperty => intro id kind members member found; exact absurd (only found).2 (by simp)

end Plan

end TraversalQuery
