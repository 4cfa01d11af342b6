import TraversalQuery.Proofs.Outline.Trees
import TraversalQuery.Proofs.Plan.Forward
import TraversalQuery.Proofs.Plan.Grounding

/-!
# Outlines show whole plans

The outline of a plan goes no deeper than the plan has nodes, and leaves out what it cannot reach.
Numbers do not bound how deep a node stands, as a quantifier that is spliced in has a greater number
than the node below it. But parents lead from every node to the root, on a path that passes no node
twice. So nothing is left out: whatever is done with a builder, the outline of its plan shows every
node once, right below its parent.
-/

namespace TraversalQuery

namespace Outline

mutual

/-- An outline and all outlines in it, each before those below it. -/
def parts : Outline → List Outline
  | .node id label children => .node id label children :: partsOf children

/-- Outlines beside one another and all outlines in them. -/
def partsOf : List Outline → List Outline
  | [] => []
  | outline :: rest => parts outline ++ partsOf rest

end

/-- The numbers of the nodes in an outline, each as often as it occurs. -/
def ids (outline : Outline) : List NodeId :=
  outline.parts.map id

theorem partsOf_eq_flatMap (outlines : List Outline) :
    partsOf outlines = outlines.flatMap parts := by
  induction outlines with
  | nil => rfl
  | cons outline rest ih => rw [partsOf, ih, List.flatMap_cons]

theorem partsOf_singleton (outline : Outline) : partsOf [outline] = outline.parts := by
  rw [partsOf, partsOf, List.append_nil]

/-- An outline is one of its parts. -/
theorem self_mem_parts (outline : Outline) : outline ∈ outline.parts := by
  cases outline
  exact List.mem_cons_self

/-- Outlines side by side are among their parts. -/
theorem subset_partsOf (outlines : List Outline) : outlines ⊆ partsOf outlines := by
  intro part member
  rw [partsOf_eq_flatMap]
  exact List.mem_flatMap_of_mem member part.self_mem_parts

/-- What stands below a part of outlines is a part of them. -/
theorem children_subset_partsOf {outlines : List Outline} :
    ∀ {part : Outline}, part ∈ partsOf outlines → part.children ⊆ partsOf outlines := by
  induction outlines using forest_induction with
  | nil => exact fun member => absurd member List.not_mem_nil
  | cons id label children rest ihBelow ihBeside =>
    intro part member child below
    rw [partsOf, parts, List.cons_append, List.mem_cons, List.mem_append] at member ⊢
    rcases member with rfl | inside | beside
    · exact .inr (.inl (subset_partsOf children below))
    · exact .inr (.inl (ihBelow inside below))
    · exact .inr (.inr (ihBeside beside below))

end Outline

namespace Plan

variable {plan : Plan}

/-- An outline with the label of its node on top, and right below it outlines of exactly the nodes
below the node. -/
structure DepictedBy (plan : Plan) (outline : Outline) : Prop where
  label : (plan.node? outline.id).map Label.ofNode = some outline.label
  children : outline.children.map Outline.id = plan.children outline.id

/-- Where everything has an outline, nothing is left out. -/
theorem map_id_filterMap {ids : List NodeId} {outlineOf : NodeId → Option Outline}
    (every : ∀ id ∈ ids, ∃ outline, outlineOf id = some outline ∧ outline.id = id) :
    (ids.filterMap outlineOf).map Outline.id = ids := by
  induction ids with
  | nil => rfl
  | cons id rest ih =>
    obtain ⟨⟨outline, isOutline, same⟩, later⟩ := List.forall_mem_cons.mp every
    rw [List.filterMap_cons_some isOutline, List.map_cons, same, ih later]

namespace Ascends

/-- Where any path leads to the root, nothing is above it. -/
theorem root_alone {id : NodeId} {path : List NodeId} (ascent : plan.Ascends id path) :
    plan.Ascends Plan.root [Plan.root] := by
  induction ascent with
  | root present top => exact .root present top
  | above _ _ ih => exact ih

/-- The limit of an outline is never reached. The deeper a node stands, the less is left of the
limit, but the fewer nodes there are besides those on its path. -/
theorem exists_outlineFrom (limit : Nat) : ∀ {id : NodeId} {path : List NodeId},
    plan.Ascends id path → plan.size < limit + path.length →
      ∃ outline, plan.outlineFrom limit id = some outline ∧ outline.id = id ∧
        ∀ part ∈ outline.parts, plan.DepictedBy part := by
  induction limit with
  | zero =>
    intro id path ascent room
    have short := ascent.length_le_size
    omega
  | succ limit ih =>
    intro id path ascent room
    obtain ⟨node, found⟩ := exists_node? ascent.lt_size
    have below : ∀ child ∈ plan.children id, ∃ outline,
        plan.outlineFrom limit child = some outline ∧ outline.id = child ∧
          ∀ part ∈ outline.parts, plan.DepictedBy part := by
      intro child member
      refine ih (.above (mem_children.mp member) ascent) ?_
      rw [List.length_cons]
      omega
    have all : ((plan.children id).filterMap (plan.outlineFrom limit)).map Outline.id =
        plan.children id :=
      map_id_filterMap fun child member =>
        have ⟨outline, isOutline, same, _⟩ := below child member
        ⟨outline, isOutline, same⟩
    refine ⟨_, by rw [outlineFrom, found, Option.map_some], rfl, fun part member => ?_⟩
    rw [Outline.parts, Outline.partsOf_eq_flatMap, List.mem_cons, List.mem_flatMap] at member
    rcases member with rfl | ⟨outline, isBelow, inside⟩
    · exact ⟨by rw [Outline.id, found]; rfl, all⟩
    · obtain ⟨child, isChild, isOutline⟩ := List.mem_filterMap.mp isBelow
      obtain ⟨other, isOther, _, depicted⟩ := below child isChild
      obtain rfl := Option.some.inj (isOther.symm.trans isOutline)
      exact depicted part inside

/-- All limits that leave room for the nodes besides those on the path give the same outline. -/
theorem outlineFrom_congr (limit : Nat) : ∀ {limit' : Nat} {id : NodeId} {path : List NodeId},
    plan.Ascends id path → plan.size < limit + path.length → plan.size < limit' + path.length →
      plan.outlineFrom limit id = plan.outlineFrom limit' id := by
  induction limit with
  | zero =>
    intro limit' id path ascent room
    have short := ascent.length_le_size
    omega
  | succ limit ih =>
    intro limit' id path ascent room room'
    cases limit' with
    | zero =>
      have short := ascent.length_le_size
      omega
    | succ limit' =>
      have same : (plan.children id).filterMap (plan.outlineFrom limit) =
          (plan.children id).filterMap (plan.outlineFrom limit') := by
        apply List.filterMap_congr
        intro child member
        apply ih (.above (mem_children.mp member) ascent)
        · rw [List.length_cons]
          omega
        · rw [List.length_cons]
          omega
      rw [outlineFrom, outlineFrom, same]

end Ascends

section Paths

variable {id : NodeId} {label : Label} {children outlines : List Outline}

/-- No node is depicted twice below another. -/
theorem DepictedBy.nodup (depicted : plan.DepictedBy (.node id label children)) :
    (children.map Outline.id).Nodup := by
  rw [show children.map Outline.id = plan.children id from depicted.children]
  exact plan.nodup_children id

/-- Below an outline that is shown on its path, outlines are on theirs. -/
theorem DepictedBy.ascends (depicted : plan.DepictedBy (.node id label children))
    {path : List NodeId} (ascent : plan.Ascends id path) :
    ∀ child ∈ children, plan.Ascends child.id (child.id :: path) := by
  intro child member
  have below : child.id ∈ plan.children id :=
    (show children.map Outline.id = plan.children id from depicted.children) ▸
      List.mem_map_of_mem member
  exact .above (mem_children.mp below) ascent

/-- The path of a node in an outline leads through the node on top of the outline. -/
theorem ascends_of_mem_partsOf : ∀ {path : List NodeId},
    (∀ part ∈ Outline.partsOf outlines, plan.DepictedBy part) →
    (∀ outline ∈ outlines, plan.Ascends outline.id (outline.id :: path)) →
      ∀ part ∈ Outline.partsOf outlines, ∃ outline ∈ outlines, ∃ whole,
        plan.Ascends part.id whole ∧ outline.id :: path <:+ whole := by
  induction outlines using Outline.forest_induction with
  | nil => exact fun _ _ part member => absurd member List.not_mem_nil
  | cons id label children rest ihBelow ihBeside =>
    intro path shown tops part member
    obtain ⟨shownFirst, shownBeside⟩ := List.forall_mem_append.mp shown
    obtain ⟨depicted, shownBelow⟩ := List.forall_mem_cons.mp shownFirst
    obtain ⟨top, topsBeside⟩ := List.forall_mem_cons.mp tops
    rcases List.mem_append.mp member with first | beside
    · refine ⟨_, List.mem_cons_self, ?_⟩
      rcases List.mem_cons.mp first with rfl | below
      · exact ⟨_, top, List.suffix_rfl⟩
      · obtain ⟨child, _, whole, ascent, suffix⟩ :=
          ihBelow shownBelow (depicted.ascends top) part below
        exact ⟨whole, ascent, (List.suffix_cons _ _).trans suffix⟩
    · obtain ⟨outline, isOutline, passes⟩ := ihBeside shownBeside topsBeside part beside
      exact ⟨outline, List.mem_cons_of_mem _ isOutline, passes⟩

/-- Paths that are the ends of one path and equally long are the same. -/
theorem eq_of_suffixes {first second : NodeId} {path whole : List NodeId}
    (suffix : first :: path <:+ whole) (suffix' : second :: path <:+ whole) : first = second := by
  have inside := List.suffix_of_suffix_length_le suffix suffix' (Nat.le_refl _)
  exact (List.cons.inj (inside.eq_of_length rfl)).1

/-- Outlines of different nodes that have the same parent share no node, as a node has one path. -/
theorem nodup_partsOf : ∀ {path : List NodeId},
    (∀ part ∈ Outline.partsOf outlines, plan.DepictedBy part) →
    (∀ outline ∈ outlines, plan.Ascends outline.id (outline.id :: path)) →
    (outlines.map Outline.id).Nodup → ((Outline.partsOf outlines).map Outline.id).Nodup := by
  induction outlines using Outline.forest_induction with
  | nil => exact fun _ _ _ => List.nodup_nil
  | cons id label children rest ihBelow ihBeside =>
    intro path shown tops apart
    obtain ⟨shownFirst, shownBeside⟩ := List.forall_mem_append.mp shown
    obtain ⟨depicted, shownBelow⟩ := List.forall_mem_cons.mp shownFirst
    obtain ⟨top, topsBeside⟩ := List.forall_mem_cons.mp tops
    obtain ⟨other, apart⟩ := List.nodup_cons.mp apart
    have topsBelow := depicted.ascends top
    -- A node in what stands beside has a path through another node below the same parent.
    have besideApart : ∀ part ∈ Outline.partsOf rest, ∀ whole, plan.Ascends part.id whole →
        ¬id :: path <:+ whole := by
      intro part member whole ascent suffix
      obtain ⟨outline, isOutline, whole', ascent', suffix'⟩ :=
        ascends_of_mem_partsOf shownBeside topsBeside part member
      obtain rfl := ascent.unique ascent'
      apply other
      rw [show (Outline.node id label children).id = outline.id from
        eq_of_suffixes suffix suffix']
      exact List.mem_map_of_mem isOutline
    have belowPasses : ∀ part ∈ Outline.partsOf children, ∃ child whole,
        plan.Ascends part.id whole ∧ child :: id :: path <:+ whole := by
      intro part member
      obtain ⟨child, _, whole, ascent, suffix⟩ :=
        ascends_of_mem_partsOf shownBelow topsBelow part member
      exact ⟨child.id, whole, ascent, suffix⟩
    rw [Outline.partsOf, Outline.parts, List.cons_append, List.map_cons, List.map_append,
      List.nodup_cons, List.mem_append, List.nodup_append']
    refine ⟨?_, ihBelow shownBelow topsBelow depicted.nodup,
      ihBeside shownBeside topsBeside apart, ?_⟩
    · rintro (below | beside)
      · obtain ⟨part, member, same⟩ := List.mem_map.mp below
        obtain ⟨child, whole, ascent, suffix⟩ := belowPasses part member
        rw [same] at ascent
        obtain rfl := ascent.unique top
        exact absurd suffix.length_le (by simp)
      · obtain ⟨part, member, same⟩ := List.mem_map.mp beside
        exact besideApart part member _ (same ▸ top) List.suffix_rfl
    · intro shared below beside
      obtain ⟨part, member, rfl⟩ := List.mem_map.mp below
      obtain ⟨part', member', same⟩ := List.mem_map.mp beside
      obtain ⟨child, whole, ascent, suffix⟩ := belowPasses part member
      exact besideApart part' member' whole (same ▸ ascent) ((List.suffix_cons _ _).trans suffix)

/-- With the root on top, every node that has a path is in the outline. -/
theorem Ascends.mem_ids {path : List NodeId} {outline : Outline}
    (ascent : plan.Ascends id path) (top : outline.id = Plan.root)
    (shown : ∀ part ∈ outline.parts, plan.DepictedBy part) : id ∈ outline.ids := by
  induction ascent with
  | root => exact List.mem_map.mpr ⟨outline, outline.self_mem_parts, top⟩
  | @above id parent path link _ ih =>
    obtain ⟨part, member, rfl⟩ := List.mem_map.mp ih
    have below : id ∈ part.children.map Outline.id := by
      rw [(shown part member).children]
      exact mem_children.mpr link
    obtain ⟨child, isChild, same⟩ := List.mem_map.mp below
    rw [← Outline.partsOf_singleton] at member
    have inside := Outline.children_subset_partsOf member isChild
    rw [Outline.partsOf_singleton] at inside
    exact List.mem_map.mpr ⟨child, inside, same⟩

/-- The outline of a plan in which parents lead from every node to the root shows every node once,
and no limit that leaves room for all nodes changes it. -/
theorem exists_outline_of_rooted (nodes : 0 < plan.size)
    (rooted : ∀ {id}, id < plan.size → plan.Rooted id) :
    ∃ outline, plan.outline? = some outline ∧ outline.id = root ∧
      outline.ids.Perm plan.ids ∧ (∀ part ∈ outline.parts, plan.DepictedBy part) ∧
      ∀ limit, plan.size ≤ limit → plan.outlineFrom limit root = some outline := by
  obtain ⟨_, ascent⟩ := rooted nodes
  have alone := ascent.root_alone
  have room {limit : Nat} (enough : plan.size ≤ limit) : plan.size < limit + [root].length :=
    Nat.lt_succ_of_le enough
  obtain ⟨outline, isOutline, top, shown⟩ :=
    alone.exists_outlineFrom (plan.size + 1) (room (Nat.le_succ _))
  refine ⟨outline, isOutline, top, ?_, shown, fun limit enough => ?_⟩
  · have nodup : outline.ids.Nodup := by
      have tops : ∀ other ∈ [outline], plan.Ascends other.id (other.id :: []) := by
        intro other member
        rw [List.mem_singleton.mp member, top]
        exact alone
      rw [← Outline.partsOf_singleton] at shown
      rw [Outline.ids, ← Outline.partsOf_singleton]
      exact nodup_partsOf shown tops (List.nodup_singleton _)
    refine (List.perm_ext_iff_of_nodup nodup plan.nodup_ids).mpr fun id => ?_
    rw [mem_ids]
    constructor
    · intro member
      obtain ⟨part, isPart, rfl⟩ := List.mem_map.mp member
      obtain ⟨node, found, _⟩ := Option.map_eq_some_iff.mp (shown part isPart).label
      exact lt_size_of_node? found
    · intro inside
      obtain ⟨_, ascent⟩ := rooted inside
      exact ascent.mem_ids top shown
  · rw [← isOutline]
    exact alone.outlineFrom_congr limit (room enough) (room (Nat.le_succ _))

end Paths

end Plan

namespace Builder

/-- **The outline of a plan under construction shows all of it.** After any history of operations on
a builder that was started, whether they succeed or fail, the plan has an outline. The root is on
top of it, every node occurs in it once, with its label, and right below a node are exactly the
nodes whose parent it is, in the order of their numbers. The limit on how deep an outline goes
leaves out nothing: every greater limit gives the same outline. -/
theorem outline_after (name? ontology? : Option String) (steps : List BuilderStep) :
    let plan := ((started name? ontology?).after steps).plan
    ∃ outline, plan.outline? = some outline ∧ outline.id = Plan.root ∧
      outline.ids.Perm plan.ids ∧
      (∀ part ∈ outline.parts,
        (plan.node? part.id).map Label.ofNode = some part.label ∧
          (part.children.map Outline.id).Pairwise (· < ·) ∧
          ∀ child, child ∈ part.children.map Outline.id ↔ plan.parent? child = some part.id) ∧
      ∀ limit, plan.size ≤ limit → plan.outlineFrom limit Plan.root = some outline := by
  intro plan
  have running := running_started name? ontology?
  have settled : (started name? ontology?).Settled := .working running
  have grounded := running.grounded.after steps settled
  have begun : ((started name? ontology?).after steps).cursor? ≠ none :=
    settled.started_after steps (by rw [started_eq]; exact Option.some_ne_none _)
  obtain ⟨here, placed⟩ := Option.ne_none_iff_exists'.mp begun
  obtain ⟨outline, isOutline, top, once, shown, unlimited⟩ := Plan.exists_outline_of_rooted
    (Nat.zero_lt_of_lt (grounded.placed placed)) grounded.rooted
  refine ⟨outline, isOutline, top, once, fun part member => ?_, unlimited⟩
  have depicted := shown part member
  rw [depicted.children]
  exact ⟨depicted.label, plan.children_ascending part.id, fun child => Plan.mem_children⟩

/-- Node 3 stands below node 5, which was spliced in above it. -/
example : ((started none none).after tangledHistory).plan.outline?.map Outline.ids =
    some [0, 1, 2, 5, 3, 4, 6, 7] := by decide +kernel

end Builder

end TraversalQuery
