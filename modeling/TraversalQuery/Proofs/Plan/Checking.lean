import TraversalQuery.Plan.Invariant
import TraversalQuery.Proofs.Plan.Ancestry
import Mathlib.Logic.Relation

/-!
# What the check of a plan asks for

Any list of slots is a plan: parents may lead in a circle or to numbers that no node has, links may
point anywhere, and there may be no nodes at all. The check of a plan finds nothing if the plan is
coherent, and only then. Coherence says of every node what its place and its links have to be,
without walking paths or counting steps.
-/

namespace TraversalQuery

namespace Plan

variable {plan : Plan}

/-- Going from parent to parent, any number of times, leads from one node to another. -/
def Reaches (plan : Plan) : NodeId → NodeId → Prop :=
  Relation.ReflTransGen fun id parent => plan.parent? id = some parent

/-- A plan in which every node has its place below the start and its links agree with parents. -/
structure Coherent (plan : Plan) : Prop where
  startsAtRoot : ∃ next?, plan.node? root = some (.start next?)
  rootOnTop : plan.parent? root = none
  oneStart : ∀ {id next?}, plan.node? id = some (.start next?) → id = root
  placed : ∀ {id}, id < plan.size → id ≠ root →
    ∃ parent, plan.parent? id = some parent ∧ parent < plan.size ∧ plan.Reaches parent root
  noneBelowProperty : ∀ {id parent held}, plan.parent? id = some parent →
    plan.node? parent ≠ some (.property held)
  listed : ∀ {id parent kind members}, plan.parent? id = some parent →
    plan.node? parent = some (.group kind members) → id ∈ members
  linked : ∀ {id node target}, plan.node? id = some node → target ∈ node.next →
    target < plan.size ∧ plan.parent? target = some id
  members : ∀ {id kind members place member}, plan.node? id = some (.group kind members) →
    members[place]? = some member →
    member = id + place + 1 ∧ (∃ held, plan.node? member = some (.property held)) ∧
      plan.parent? member = some id

/-! ### Paths -/

/-- A path leads up from its node to its last, also where it is cut off. -/
theorem reaches_of_getLast?_ancestry {target : NodeId} (limit : Nat) :
    ∀ {id : NodeId}, (plan.ancestry limit id).getLast? = some target → plan.Reaches id target := by
  induction limit with
  | zero => exact fun last => absurd last (Option.some_ne_none _).symm
  | succ limit ih =>
    intro id last
    rw [ancestry] at last
    split at last
    · obtain rfl := Option.some.inj last
      exact .refl
    · rename_i parent link
      cases above : plan.ancestry limit parent with
      | nil =>
        rw [above] at last
        obtain rfl := Option.some.inj last
        exact .refl
      | cons first rest =>
        rw [above, List.getLast?_cons_cons, ← above] at last
        exact .head link (ih last)

/-- Below a root with nothing above it, what reaches the root has a path to it. -/
theorem rooted_of_reaches (present : root < plan.size) (top : plan.parent? root = none)
    {id : NodeId} (reaches : plan.Reaches id root) : plan.Rooted id := by
  induction reaches using Relation.ReflTransGen.head_induction_on with
  | refl => exact ⟨_, .root present top⟩
  | head link _ ih =>
    obtain ⟨path, ascent⟩ := ih
    exact ⟨_, .above link ascent⟩

/-- Following parents never goes round on the way to the root, so the path that is cut off at the
size of the plan tells whether the root is reached. -/
theorem getLast?_pathToRoot_iff (present : root < plan.size) (top : plan.parent? root = none)
    {id : NodeId} (inside : id < plan.size) :
    (plan.pathToRoot id).getLast? = some root ↔ plan.Reaches id root := by
  constructor
  · intro last
    obtain ⟨node, found⟩ := exists_node? inside
    simp only [pathToRoot, found] at last
    exact reaches_of_getLast?_ancestry _ last
  · exact fun reaches => (rooted_of_reaches present top reaches).getLast?_pathToRoot

/-! ### The parts of the check -/

/-- Nothing is wrong with the root exactly if it is a start without a parent. -/
theorem rootViolations_eq_nil_iff :
    plan.rootViolations = [] ↔
      (∃ next?, plan.node? root = some (.start next?)) ∧ plan.parent? root = none := by
  rw [rootViolations]
  cases found : plan.node? root with
  | none => simp
  | some node => cases node <;> simp [Node.isStart]

/-- Nothing is wrong with a parent exactly if it is in the plan, is no property, and lists the child
if it is a group. -/
theorem parentViolations_eq_nil_iff {parent child : NodeId} :
    plan.parentViolations parent child = [] ↔
      parent < plan.size ∧ (∀ held, plan.node? parent ≠ some (.property held)) ∧
        ∀ kind members, plan.node? parent = some (.group kind members) → child ∈ members := by
  rw [parentViolations]
  cases found : plan.node? parent with
  | none => simp [node?_eq_none_iff.mp found]
  | some node =>
    have inside := lt_size_of_node? found
    cases node with
    | property held => simp
    | group kind members => simp [inside]
    | _ => simp [inside]

/-- Nothing is wrong with the place of a node exactly if the node is no start and has a fitting
parent and a path to the root. -/
theorem placeViolations_eq_nil_iff {id : NodeId} :
    plan.placeViolations id = [] ↔
      (∀ next?, plan.node? id ≠ some (.start next?)) ∧
        ∃ parent, plan.parent? id = some parent ∧ plan.parentViolations parent id = [] ∧
          (plan.pathToRoot id).getLast? = some root := by
  have starts : (plan.node? id).any Node.isStart = false ↔
      ∀ next?, plan.node? id ≠ some (.start next?) := by
    cases plan.node? id with
    | none => simp
    | some node => cases node <;> simp [Node.isStart]
  rw [placeViolations, List.append_eq_nil_iff, ← starts]
  refine and_congr (by simp) ?_
  cases plan.parent? id with
  | none => simp
  | some parent => simp

/-- Nothing is wrong with a link exactly if its target is in the plan and has the source as its
parent. -/
theorem linkViolations_eq_nil_iff {source target : NodeId} :
    plan.linkViolations source target = [] ↔
      target < plan.size ∧ plan.parent? target = some source := by
  rw [linkViolations]
  by_cases inside : target < plan.size
  · obtain ⟨node, found⟩ := exists_node? inside
    simp [found, inside]
  · simp [node?_eq_none_iff.mpr (Nat.le_of_not_lt inside), inside]

/-- Members that stand right behind their group are told by their numbers. -/
theorem eq_range'_iff {first : NodeId} {members : List NodeId} :
    members = List.range' first members.length ↔
      ∀ place member, members[place]? = some member → member = first + place := by
  constructor
  · intro same place member found
    rw [same, List.getElem?_range'] at found
    · simpa using found.symm
    · rw [same] at found
      simpa using (List.getElem?_eq_some_iff.mp found).1
  · intro places
    refine List.ext_getElem (by simp) fun place inside _ => ?_
    rw [List.getElem_range', Nat.one_mul]
    exact places place _ (List.getElem?_eq_getElem inside)

/-- Nothing is wrong with a group exactly if its members are the properties that follow it, in
order, and have it as their parent. -/
theorem groupViolations_eq_nil_iff {group : NodeId} {members : List NodeId} :
    plan.groupViolations group members = [] ↔
      ∀ place member, members[place]? = some member →
        member = group + place + 1 ∧ (∃ held, plan.node? member = some (.property held)) ∧
          plan.parent? member = some group := by
  have isProperty (member : NodeId) : (plan.node? member).any Node.isProperty = true ↔
      ∃ held, plan.node? member = some (.property held) := by
    cases plan.node? member with
    | none => simp
    | some node => cases node <;> simp [Node.isProperty]
  have owned (member : NodeId) :
      (!((plan.node? member).any Node.isProperty && plan.parent? member == some group)) = false ↔
        (∃ held, plan.node? member = some (.property held)) ∧
          plan.parent? member = some group := by
    rw [Bool.not_eq_false', Bool.and_eq_true, isProperty, beq_iff_eq]
  rw [groupViolations, List.append_eq_nil_iff, List.map_eq_nil_iff, List.filter_eq_nil_iff]
  simp only [ite_eq_left_iff, List.cons_ne_nil, imp_false, not_not, eq_range'_iff, Bool.not_eq_true,
    owned, List.mem_iff_getElem?]
  constructor
  · rintro ⟨places, all⟩ place member found
    exact ⟨by rw [places place member found, Nat.add_right_comm], all member ⟨place, found⟩⟩
  · intro all
    refine ⟨fun place member found => ?_, fun member ⟨place, found⟩ => (all place member found).2⟩
    rw [(all place member found).1, Nat.add_right_comm]

/-- Nothing is wrong with what a node leads to exactly if its links are sound and, for a group, so
are its members. -/
theorem edgeViolations_eq_nil_iff {id : NodeId} {node : Node} (found : plan.node? id = some node) :
    plan.edgeViolations id = [] ↔
      (∀ target ∈ node.next, target < plan.size ∧ plan.parent? target = some id) ∧
        ∀ kind members, node = .group kind members → plan.groupViolations id members = [] := by
  rw [edgeViolations, found]
  simp only [List.append_eq_nil_iff, List.flatMap_eq_nil_iff, linkViolations_eq_nil_iff]
  refine and_congr_right fun _ => ?_
  cases node <;> simp

/-- Nothing is wrong beyond the plan. -/
theorem edgeViolations_of_size_le {id : NodeId} (beyond : plan.size ≤ id) :
    plan.edgeViolations id = [] := by
  rw [edgeViolations, node?_eq_none_iff.mpr beyond]

/-- The check finds nothing if none of its parts does. -/
theorem violations_eq_nil_iff :
    plan.violations = [] ↔
      plan.rootViolations = [] ∧ (∀ id, id < plan.size → id ≠ root → plan.placeViolations id = []) ∧
        ∀ id, plan.edgeViolations id = [] := by
  rw [violations, List.append_eq_nil_iff, List.append_eq_nil_iff, List.flatMap_eq_nil_iff,
    List.flatMap_eq_nil_iff, and_assoc]
  refine and_congr_right fun _ => and_congr (forall_congr' fun id => ?_) ?_
  · have bounds (place size : Nat) : 0 + 1 * 1 ≤ place ∧ place < 0 + 1 * 1 + (size - 1) ↔
        place < size ∧ place ≠ 0 := by omega
    rw [ids, List.range_eq_range', List.drop_range', List.mem_range'_1, ← and_imp]
    exact imp_congr_left (bounds id plan.size)
  · refine forall_congr' fun id => ?_
    rw [ids, List.mem_range]
    exact ⟨fun inside => (Nat.lt_or_ge id plan.size).elim inside edgeViolations_of_size_le,
      fun none _ => none⟩

/-! ### Exactness -/

namespace Coherent

/-- A coherent plan has a root. -/
theorem root_lt_size (coherent : plan.Coherent) : root < plan.size := by
  obtain ⟨_, found⟩ := coherent.startsAtRoot
  exact lt_size_of_node? found

/-- Nothing is wrong with a coherent plan. -/
theorem violations_eq_nil (coherent : plan.Coherent) : plan.violations = [] := by
  refine violations_eq_nil_iff.mpr ⟨?_, fun id inside other => ?_, fun id => ?_⟩
  · exact rootViolations_eq_nil_iff.mpr ⟨coherent.startsAtRoot, coherent.rootOnTop⟩
  · obtain ⟨parent, link, within, reaches⟩ := coherent.placed inside other
    refine placeViolations_eq_nil_iff.mpr
      ⟨fun _ found => other (coherent.oneStart found), parent, link, ?_, ?_⟩
    · exact parentViolations_eq_nil_iff.mpr ⟨within, fun _ => coherent.noneBelowProperty link,
        fun _ _ found => coherent.listed link found⟩
    · exact (getLast?_pathToRoot_iff coherent.root_lt_size coherent.rootOnTop inside).mpr
        (.head link reaches)
  · cases found : plan.node? id with
    | none => exact edgeViolations_of_size_le (node?_eq_none_iff.mp found)
    | some node =>
      refine (edgeViolations_eq_nil_iff found).mpr ⟨fun _ => coherent.linked found, ?_⟩
      rintro kind members rfl
      exact groupViolations_eq_nil_iff.mpr fun _ _ => coherent.members found

end Coherent

/-- A plan with which nothing is wrong is coherent. -/
theorem coherent_of_violations_eq_nil (none : plan.violations = []) : plan.Coherent := by
  obtain ⟨rootFine, places, edges⟩ := violations_eq_nil_iff.mp none
  obtain ⟨⟨next?, start⟩, top⟩ := rootViolations_eq_nil_iff.mp rootFine
  have present : root < plan.size := lt_size_of_node? start
  have below {id parent : NodeId} (link : plan.parent? id = some parent) : id ≠ root := by
    rintro rfl
    rw [top] at link
    contradiction
  -- What the check says of a node with a parent, which is none but the first.
  have place {id parent : NodeId} (link : plan.parent? id = some parent) :
      plan.parentViolations parent id = [] ∧ plan.Reaches id root := by
    have inside := lt_size_of_parent? link
    obtain ⟨_, _, link', fine, last⟩ :=
      placeViolations_eq_nil_iff.mp (places id inside (below link))
    obtain rfl := Option.some.inj (link'.symm.trans link)
    exact ⟨fine, (getLast?_pathToRoot_iff present top inside).mp last⟩
  constructor
  case startsAtRoot => exact ⟨next?, start⟩
  case rootOnTop => exact top
  case oneStart =>
    intro id next? found
    by_contra other
    exact (placeViolations_eq_nil_iff.mp (places id (lt_size_of_node? found) other)).1 next? found
  case placed =>
    intro id inside other
    obtain ⟨_, parent, link, fine, _⟩ := placeViolations_eq_nil_iff.mp (places id inside other)
    have within := (parentViolations_eq_nil_iff.mp fine).1
    refine ⟨parent, link, within, ?_⟩
    by_cases isRoot : parent = root
    · rw [isRoot]
      exact .refl
    · obtain ⟨_, _, link', _⟩ := placeViolations_eq_nil_iff.mp (places parent within isRoot)
      exact (place link').2
  case noneBelowProperty =>
    intro id parent held link
    exact (parentViolations_eq_nil_iff.mp (place link).1).2.1 held
  case listed =>
    intro id parent kind members link found
    exact (parentViolations_eq_nil_iff.mp (place link).1).2.2 kind members found
  case linked =>
    intro id node target found leads
    exact ((edgeViolations_eq_nil_iff found).mp (edges id)).1 target leads
  case members =>
    intro id kind members place member found isMember
    have fine := ((edgeViolations_eq_nil_iff found).mp (edges id)).2 kind members rfl
    exact groupViolations_eq_nil_iff.mp fine place member isMember

/-- Two quantifiers that are each other's parents never come to the start. -/
example : violations ⟨none, none, [⟨.start none, none⟩, ⟨.quantifier .every [], some 2⟩,
    ⟨.quantifier .every [], some 1⟩]⟩ = [.unrooted 1, .unrooted 2] := by decide

end Plan

end TraversalQuery
