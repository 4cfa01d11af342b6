import TraversalQuery.Proofs.Plan.Forward
import TraversalQuery.Proofs.Planning.Hanging
import TraversalQuery.Proofs.Planning.Visits

/-!
# The links of a plan

A planner puts every leaf where fields fan out or into a group, but for the properties that come
first at the root. So the links of its plan agree with the parents of the nodes: nothing is lost
when a node comes after another that leads on to one node only, and nothing is listed twice.
-/

namespace TraversalQuery

namespace Sketch

/-- Where leaves are: below a fan or in a group, or as a property right below the root. -/
def LeavesHang (sketch : Sketch) : Prop :=
  ∀ entry ∈ sketch, entry.node.isLeaf = true →
    (∃ key, entry.above? = some (.fan key)) ∨ (∃ key, entry.above? = some (.group key)) ∨
      entry.node.isProperty = true ∧ entry.above? = some (.object rootKey)

namespace LeavesHang

variable {sketch more : Sketch}

/-- Leaves hang in sketches side by side if they do in each. -/
theorem append (hangs : sketch.LeavesHang) (hangs' : more.LeavesHang) :
    LeavesHang (sketch ++ more) :=
  List.forall_mem_append.mpr ⟨hangs, hangs'⟩

/-- Leaves still hang after an object fans out. -/
theorem spread (hangs : sketch.LeavesHang) (key : String) : (sketch.spread key).LeavesHang := by
  refine append (fun entry member leaf => ?_) (List.forall_mem_singleton.mpr nofun)
  obtain ⟨before, old, rfl⟩ := List.mem_map.mp member
  rw [node_rehome] at leaf ⊢
  -- Only what is no leaf is moved below the fan.
  have still : rehome key before = before := by
    refine if_neg fun moves => ?_
    rw [moves.2] at leaf
    contradiction
  rw [still]
  exact hangs before old leaf

/-- Leaves still hang after an object is let fan out. -/
theorem fanned (hangs : sketch.LeavesHang) (key : String) : (sketch.fanned key).LeavesHang := by
  unfold Sketch.fanned
  split
  · exact hangs
  · exact hangs.spread key

/-- The leaves of a filter hang below its group. -/
theorem group (key : String) (filter : PlannedFilter) (around : String) :
    (groupEntries key filter (.fan around)).LeavesHang := by
  refine List.forall_mem_cons.mpr ⟨fun _ => .inl ⟨around, rfl⟩, fun entry member _ => ?_⟩
  exact .inr (.inl ⟨key, (above?_members entry member).2⟩)

/-- A field that is put below a fan or the root hangs there. -/
theorem own {above : Place} (anchored : (∃ around, above = .fan around) ∨ above = .object rootKey)
    (key : String) (part : Part) : (ownEntries key above part).LeavesHang := by
  rcases part with property | ⟨_ | relation, entity, filter?⟩
  · refine List.forall_mem_singleton.mpr fun _ => ?_
    rcases anchored with ⟨around, rfl⟩ | rfl
    · exact .inl ⟨around, rfl⟩
    · exact .inr (.inr ⟨rfl, rfl⟩)
  · exact List.forall_mem_singleton.mpr nofun
  · exact List.forall_mem_cons.mpr ⟨nofun, List.forall_mem_singleton.mpr nofun⟩

/-- Leaves still hang with one more filter. -/
theorem filtered (hangs : sketch.LeavesHang) (key : String) (filter : PlannedFilter)
    (above : Place) : (sketch.filtered key filter above).LeavesHang := by
  unfold Sketch.filtered
  split
  · exact hangs.append (group key filter _)
  · exact (hangs.spread key).append (group key filter key)

/-- **A field adds no leaf that hangs elsewhere.** -/
theorem add (hangs : sketch.LeavesHang) (mark : Mark) : (sketch.add mark).LeavesHang := by
  have anchored : (∃ around, (sketch.fanned mark.around).anchor mark.around = .fan around) ∨
      (sketch.fanned mark.around).anchor mark.around = .object rootKey := by
    rcases fanned_cases sketch mark.around with fans | waits
    · exact .inl ⟨_, fans.1⟩
    · exact .inr (waits.1.trans (congrArg Place.object waits.2.2.1))
  have entered := (hangs.fanned mark.around).append (own anchored mark.key mark.part)
  unfold Sketch.add
  dsimp only
  split
  · exact entered
  · exact entered.filtered _ _ _

/-- Leaves still hang with more fields. -/
theorem foldl_add (marks : List Mark) :
    ∀ {sketch : Sketch}, sketch.LeavesHang → (marks.foldl Sketch.add sketch).LeavesHang := by
  induction marks with
  | nil => exact id
  | cons mark rest ih => exact fun hangs => ih (hangs.add mark)

theorem start : Sketch.start.LeavesHang :=
  List.forall_mem_singleton.mpr nofun

end LeavesHang

end Sketch

namespace Planner

variable {planner : Planner} {sketch : Sketch}

/-- A quantifier lists all that is below it, and a group does. -/
theorem Draws.mem_forward_of_place (draws : planner.Draws sketch) {id child : NodeId}
    {place : Place} (isPlace : sketch.places[id]? = some place)
    (listing : (∃ key, place = .fan key) ∨ ∃ key, place = .group key)
    (link : planner.builder.plan.parent? child = some id) :
    child ∈ planner.builder.plan.forward id := by
  obtain ⟨_, node, _, _, present, _, fits⟩ := draws.node isPlace
  rw [Plan.forward_eq present]
  have below := Plan.mem_children.mpr link
  cases node with
  | quantifier kind next => rwa [← draws.running.formed.fan present] at below
  | group kind members => rwa [← draws.running.formed.group present] at below
  | _ => rcases listing with ⟨key, rfl⟩ | ⟨key, rfl⟩ <;> exact fits.elim

/-- A property right below the root is loose. -/
theorem Draws.isLoose (draws : planner.Draws sketch) {id child : NodeId} {below : Node}
    (isPlace : sketch.places[id]? = some (.object Sketch.rootKey))
    (link : planner.builder.plan.parent? child = some id)
    (isBelow : planner.builder.plan.node? child = some below) (shown : below.isProperty = true) :
    planner.builder.plan.isLoose child = true := by
  have isRoot : id = Plan.root := Plan.Matches.unique draws.tidy isPlace draws.tidy.top
  rw [Plan.isLoose, isBelow, link, Option.any_some, Option.any_some, shown, Bool.true_and]
  exact draws.running.formed.isStart_iff.mpr isRoot

/-- **The plan of a planner is threaded** when its leaves are where they belong. -/
theorem Draws.threaded (draws : planner.Draws sketch) (hangs : sketch.LeavesHang) :
    planner.builder.plan.Threaded where
  formed := draws.running.formed
  nodup := draws.running.formed.nodup_forward
  mem_forward := by
    intro id child
    refine ⟨draws.running.formed.of_mem_forward, fun ⟨link, tight⟩ => ?_⟩
    obtain ⟨place, isPlace⟩ : ∃ place, sketch.places[id]? = some place := by
      have inside := draws.matched.sizes ▸ draws.running.formed.parent_lt_size link
      exact ⟨_, Plan.Matches.places_of_entry (List.getElem?_eq_getElem inside)⟩
    obtain ⟨entry, found⟩ : ∃ entry, sketch[child]? = some entry := by
      have inside := draws.matched.sizes ▸ Plan.lt_size_of_parent? link
      exact ⟨_, List.getElem?_eq_getElem inside⟩
    obtain ⟨below, isBelow, same⟩ := draws.matched.nodes found
    have isAbove := (draws.matched.above?_eq found link).trans isPlace
    by_cases listing : (∃ key, place = .fan key) ∨ ∃ key, place = .group key
    · exact draws.mem_forward_of_place isPlace listing link
    · obtain ⟨noFan, noGroup⟩ := not_or.mp listing
      by_cases leaf : entry.node.isLeaf = true
      · -- A leaf that no fan and no group lists is a property below the start.
        rcases hangs entry (List.mem_of_getElem? found) leaf with ⟨key, fan⟩ | ⟨key, group⟩ |
          ⟨shown, top⟩
        · exact absurd ⟨key, Option.some.inj (isAbove.symm.trans fan)⟩ noFan
        · exact absurd ⟨key, Option.some.inj (isAbove.symm.trans group)⟩ noGroup
        · obtain rfl := Option.some.inj (isAbove.symm.trans top)
          rw [← same, Node.isProperty_bare] at shown
          rw [draws.isLoose isPlace link isBelow shown] at tight
          contradiction
      · obtain ⟨_, node, _, _, present, _, _⟩ := draws.node isPlace
        rw [Plan.forward_eq present]
        exact Node.mem_forward_of_successor? <| (draws.matched.successor?_iff
          draws.running.formed draws.tidy isPlace (fun key same => noFan ⟨key, same⟩) present
          found).mpr ⟨isAbove, (Bool.not_eq_true _).mp leaf⟩

end Planner

namespace QueryModel

/-- The planner that a request leaves follows the sketch of the fields that it was asked about. -/
theorem follows_of_plan {sources : List String} {model : QueryModel} {request : Request}
    {plan : Plan} (compiled : Schema.compileWithFilters sources = .ok model.schema)
    (planned : model.plan request = .ok plan) :
    ∃ (planner : Planner) (marks : List Mark), planner.builder.plan = plan ∧
      (model.calls request).map (·.visit.mark? model.ontology) = marks.map some ∧
      planner.Follows (marks.foldl Sketch.add Sketch.start) := by
  obtain ⟨calls, made, arranged, script⟩ := model.calls_arranged request
  obtain ⟨success, isPlan⟩ := refusal?_of_plan_eq_ok planned
  obtain ⟨marks, same, follows⟩ := Planner.follows_transcript script success
    (Planner.follows_fresh _ _) Planner.shows_start (arranged.visits ⟨_, .inr compiled⟩)
    arranged.parentsFirst.visits
  exact ⟨_, marks, isPlan, made ▸ same, follows⟩

/-- **No node is lost from the links of a plan, and none is listed twice.** The links of all nodes
together are the nodes of the plan, each once, but for the start and for properties right below it;
every link leads from a node to one below it; and so a walk along the links from the root comes to
every node once, but for those properties. -/
theorem plan_links_nodes_once {sources : List String} {model : QueryModel} {request : Request}
    {plan : Plan} (compiled : Schema.compileWithFilters sources = .ok model.schema)
    (planned : model.plan request = .ok plan) :
    plan.links.Perm (plan.ids.filter fun id => !plan.isStart id && !plan.isLoose id) ∧
      (∀ id child, child ∈ plan.forward id → plan.parent? child = some id) ∧
      ∀ limit, plan.size ≤ limit →
        (plan.walkForward limit Plan.root).Perm (plan.ids.filter fun id => !plan.isLoose id) := by
  obtain ⟨planner, marks, rfl, _, follows⟩ := follows_of_plan compiled planned
  have threaded := follows.threaded (Sketch.LeavesHang.start.foldl_add marks)
  exact ⟨threaded.perm_links, fun id child member => (threaded.mem_forward.mp member).1,
    fun limit room => threaded.perm_walkForward room⟩

/-- A schema of people, with a name that belongs to nobody. -/
def namedSource : String :=
  "type Query \x7b people(id: ID): [Person] name: String \x7d
   type Person \x7b id: ID name: String friends(where: WhereClause): [Person] \x7d"

/-- A request for the name that belongs to nobody, and then for people and some of their friends. -/
def namedRequest : Request where
  query := "\x7b name people \x7b name friends(where: \x7bconstraints: [
      \x7boperand: \"name\", operator: \"like\", expression: \"a\"\x7d]\x7d) \x7b name \x7d \x7d \x7d"
  operation? := none
  variableValues := []

/-- In a plan with a property right below the start, the walk from the root leaves it out. -/
theorem plan_links_nodes_once_named : ∃ (model : QueryModel) (plan : Plan),
    Schema.compileWithFilters [namedSource] = .ok model.schema ∧
      model.plan namedRequest = .ok plan ∧ plan.size = 11 ∧ plan.isLoose 1 = true ∧
      plan.links.Perm (plan.ids.filter fun id => !plan.isStart id && !plan.isLoose id) ∧
      (∀ id child, child ∈ plan.forward id → plan.parent? child = some id) ∧
      ∀ limit, plan.size ≤ limit →
        (plan.walkForward limit Plan.root).Perm (plan.ids.filter fun id => !plan.isLoose id) := by
  have ran : ((derive [namedSource] "people").bind (·.plan namedRequest)).toOption.map
      (fun plan => (plan.size, plan.isLoose 1)) = some (11, true) := by decide +kernel
  obtain ⟨plan, planned, same⟩ := Option.map_eq_some_iff.mp ran
  obtain ⟨size, loose⟩ := Prod.mk.inj same
  obtain ⟨model, derived, planned⟩ := Except.of_bind_eq_ok (Except.of_toOption_eq_some planned)
  have compiled := compiled_of_derive derived
  exact ⟨model, plan, compiled, planned, size, loose, plan_links_nodes_once compiled planned⟩

end QueryModel

end TraversalQuery
