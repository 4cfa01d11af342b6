import TraversalQuery.Plan.Basic
import Mathlib.Data.List.Basic
import Mathlib.Data.List.Range
import Mathlib.Data.Finset.Card
import Mathlib.Data.Finset.Range

/-!
# Paths to the root

Following parents from a node of a plan either ends at the root or goes round for ever. A node whose
path ends is rooted. Each node has at most one such path, no node stands on it twice, and so it is
no longer than the plan has nodes: the limits in `Plan.pathToRoot` never cut it off.
-/

namespace TraversalQuery

namespace Plan

variable {plan : Plan}

/-- The path from a node up to the root, the node itself first. -/
inductive Ascends (plan : Plan) : NodeId → List NodeId → Prop
  | root (present : root < plan.size) (top : plan.parent? root = none) :
      Ascends plan root [root]
  | above {id parent : NodeId} {path : List NodeId} (link : plan.parent? id = some parent)
      (rest : Ascends plan parent path) : Ascends plan id (id :: path)

/-- Following parents from the node leads to the root. -/
def Rooted (plan : Plan) (id : NodeId) : Prop :=
  ∃ path, plan.Ascends id path

/-- Only nodes of the plan have parents. -/
theorem lt_size_of_parent? {id parent : NodeId} (link : plan.parent? id = some parent) :
    id < plan.size := by
  obtain ⟨slot, found, _⟩ := Option.bind_eq_some_iff.mp link
  exact (List.getElem?_eq_some_iff.mp found).1

/-- There is no node exactly for the ids beyond the plan. -/
theorem node?_eq_none_iff {id : NodeId} : plan.node? id = none ↔ plan.size ≤ id := by
  simp only [node?, Option.map_eq_none_iff, List.getElem?_eq_none_iff, size]

/-- Nodes have ids within the plan. -/
theorem lt_size_of_node? {id : NodeId} {node : Node} (found : plan.node? id = some node) :
    id < plan.size := by
  by_contra outside
  rw [node?_eq_none_iff.mpr (Nat.le_of_not_lt outside)] at found
  contradiction

/-- There is a node for every id within the plan. -/
theorem exists_node? {id : NodeId} (inside : id < plan.size) :
    ∃ node, plan.node? id = some node := by
  cases found : plan.node? id with
  | none => exact absurd (node?_eq_none_iff.mp found) (Nat.not_le_of_lt inside)
  | some node => exact ⟨node, rfl⟩

namespace Ascends

variable {id : NodeId} {path : List NodeId}

/-- A path to the root passes something. -/
theorem ne_nil (ascent : plan.Ascends id path) : path ≠ [] := by
  cases ascent <;> exact List.cons_ne_nil _ _

/-- A path to the root begins in the plan. -/
theorem lt_size (ascent : plan.Ascends id path) : id < plan.size := by
  cases ascent with
  | root present _ => exact present
  | above link _ => exact lt_size_of_parent? link

/-- A path to the root ends there. -/
theorem getLast? (ascent : plan.Ascends id path) : path.getLast? = some Plan.root := by
  induction ascent with
  | root => rfl
  | above _ rest ih => rw [List.getLast?_cons_of_ne_nil rest.ne_nil, ih]

/-- Parents leave no choice, so a node has one path to the root. -/
theorem unique (ascent : plan.Ascends id path) :
    ∀ {other : List NodeId}, plan.Ascends id other → other = path := by
  induction ascent with
  | root _ top =>
    intro other second
    cases second with
    | root => rfl
    | above link _ => rw [top] at link; contradiction
  | above link rest ih =>
    intro other second
    cases second with
    | root _ top => rw [top] at link; contradiction
    | above link' rest' =>
      obtain rfl := Option.some.inj (link.symm.trans link')
      rw [ih rest']

/-- The path of a node on a path is the rest of that path. -/
theorem of_mem (ascent : plan.Ascends id path) {passed : NodeId} (member : passed ∈ path) :
    ∃ rest, plan.Ascends passed rest ∧ rest <:+ path := by
  induction ascent with
  | root present top =>
    obtain rfl := List.mem_singleton.mp member
    exact ⟨_, .root present top, List.suffix_refl _⟩
  | above link rest ih =>
    rcases List.mem_cons.mp member with rfl | later
    · exact ⟨_, .above link rest, List.suffix_refl _⟩
    · obtain ⟨tail, ascends, suffix⟩ := ih later
      exact ⟨tail, ascends, suffix.trans (List.suffix_cons _ _)⟩

/-- A path to the root passes no node twice. -/
theorem nodup (ascent : plan.Ascends id path) : path.Nodup := by
  induction ascent with
  | root => exact List.nodup_singleton _
  | above link rest ih =>
    refine List.nodup_cons.mpr ⟨?_, ih⟩
    intro again
    -- A second visit would have the whole path as a part of its own rest.
    obtain ⟨tail, ascends, suffix⟩ := rest.of_mem again
    obtain rfl := (Ascends.above link rest).unique ascends
    have shorter := suffix.length_le
    rw [List.length_cons] at shorter
    omega

/-- A path to the root stays in the plan. -/
theorem lt_size_of_mem (ascent : plan.Ascends id path) {passed : NodeId}
    (member : passed ∈ path) : passed < plan.size := by
  obtain ⟨_, ascends, _⟩ := ascent.of_mem member
  exact ascends.lt_size

/-- A path to the root is no longer than the plan has nodes. -/
theorem length_le_size (ascent : plan.Ascends id path) : path.length ≤ plan.size := by
  have inRange : path.toFinset ⊆ Finset.range plan.size := by
    intro passed member
    exact Finset.mem_range.mpr (ascent.lt_size_of_mem (List.mem_toFinset.mp member))
  calc path.length = path.toFinset.card := (List.toFinset_card_of_nodup ascent.nodup).symm
    _ ≤ (Finset.range plan.size).card := Finset.card_le_card inRange
    _ = plan.size := Finset.card_range _

/-- The ancestry up to a limit is the path to the root if the limit is long enough. -/
theorem ancestry_eq (ascent : plan.Ascends id path) :
    ∀ {limit : Nat}, path.length ≤ limit → plan.ancestry limit id = path := by
  induction ascent with
  | root _ top =>
    intro limit enough
    obtain ⟨rounds, rfl⟩ := Nat.exists_eq_succ_of_ne_zero (Nat.ne_of_gt enough)
    simp only [ancestry, top]
  | above link rest ih =>
    intro limit enough
    rw [List.length_cons] at enough
    obtain ⟨rounds, rfl⟩ := Nat.exists_eq_succ_of_ne_zero (n := limit) (by omega)
    simp only [ancestry, link]
    rw [ih (by omega)]

/-- The path to the root is the one that is computed. -/
theorem pathToRoot_eq (ascent : plan.Ascends id path) : plan.pathToRoot id = path := by
  obtain ⟨node, found⟩ := exists_node? ascent.lt_size
  simp only [pathToRoot, found]
  exact ascent.ancestry_eq (Nat.le_succ_of_le ascent.length_le_size)

end Ascends

theorem Rooted.getLast?_pathToRoot {id : NodeId} (rooted : plan.Rooted id) :
    (plan.pathToRoot id).getLast? = some root := by
  obtain ⟨path, ascent⟩ := rooted
  rw [ascent.pathToRoot_eq, ascent.getLast?]

/-- Only nodes of the plan have a path to the root. -/
theorem Rooted.lt_size {id : NodeId} (rooted : plan.Rooted id) : id < plan.size := by
  obtain ⟨_, ascent⟩ := rooted
  exact ascent.lt_size

/-- The parent of a rooted node is rooted. -/
theorem Rooted.parent {id parent : NodeId} (rooted : plan.Rooted id)
    (link : plan.parent? id = some parent) : plan.Rooted parent := by
  obtain ⟨path, ascent⟩ := rooted
  cases ascent with
  | root _ top => rw [top] at link; contradiction
  | above link' rest =>
    obtain rfl := Option.some.inj (link'.symm.trans link)
    exact ⟨_, rest⟩

end Plan

end TraversalQuery
