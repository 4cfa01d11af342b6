import TraversalQuery.Proofs.Planning.Links

/-!
# Relationships in plans

A field that crosses a relationship puts one step over it into the plan, right before the step to
its object. So the steps over relationships in a plan are those of the fields that cross one, in the
order of the fields, and each leads on to the entity of its field and to nothing else.
-/

namespace TraversalQuery

namespace Node

/-- The step of a node that is one over a relationship. -/
def relation? : Node → Option RelationStep
  | .relation step _ => some step
  | _ => none

@[simp] theorem relation?_bare (node : Node) : node.bare.relation? = node.relation? := by
  cases node <;> rfl

end Node

/-- The step over a relationship on the way to the object of a field. -/
def Part.relation? : Part → Option RelationStep
  | .shown _ => none
  | .entered relation? _ _ => relation?

namespace FieldVisit

/-- The step over a relationship that a field puts into plans. -/
def crossing? (ontology : Ontology) (visit : FieldVisit) : Option RelationStep :=
  (visit.part? ontology).bind Part.relation?

/-- Where a field enters an object, its output names the type of the entity, and its name the
relationship. -/
theorem of_part?_eq_entered {ontology : Ontology} {visit : FieldVisit}
    {relation? : Option RelationStep} {entity : EntityStep} {filter? : Option PlannedFilter}
    (isPart : visit.part? ontology = some (.entered relation? entity filter?)) :
    ∃ output type, visit.output? = some output ∧ output.kind.isComposite = true ∧
      ontology.entity? output.name = some type ∧ relation? = visit.relationStep? ontology ∧
      entity = visit.entityStep type := by
  unfold part? at isPart
  split at isPart
  · contradiction
  · rename_i output isOutput
    split at isPart
    · rename_i composite
      obtain ⟨type, isType, isPart⟩ := Option.bind_eq_some_iff.mp isPart
      refine ⟨output, type, isOutput, composite, isType, ?_⟩
      unfold enteredPart? at isPart
      split at isPart
      · obtain ⟨relation, entity, _⟩ := Part.entered.inj (Option.some.inj isPart)
        exact ⟨relation.symm, entity.symm⟩
      · obtain ⟨_, _, isPart⟩ := Option.map_eq_some_iff.mp isPart
        obtain ⟨relation, entity, _⟩ := Part.entered.inj isPart
        exact ⟨relation.symm, entity.symm⟩
    · split at isPart
      · obtain ⟨_, _, isPart⟩ := Option.map_eq_some_iff.mp isPart
        exact Part.noConfusion isPart
      · contradiction

/-- A field that enters an object crosses the relationship of its name. -/
theorem crossing?_eq {ontology : Ontology} {visit : FieldVisit} (composite : visit.IsComposite)
    {part : Part} (isPart : visit.part? ontology = some part) :
    visit.crossing? ontology = visit.relationStep? ontology := by
  obtain ⟨relation?, entity, filter?, rfl⟩ := entered_of_isComposite composite isPart
  obtain ⟨_, _, _, _, _, same, _⟩ := of_part?_eq_entered isPart
  rw [crossing?, isPart, ← same]
  rfl

end FieldVisit

namespace Plan

/-- The steps over relationships in a plan, in the order of their nodes. -/
def relations (plan : Plan) : List RelationStep :=
  plan.slots.filterMap (·.node.relation?)

end Plan

namespace Sketch

/-- The steps over relationships in a sketch. -/
def relations (sketch : Sketch) : List RelationStep :=
  sketch.filterMap (·.node.relation?)

@[simp] theorem relations_append (sketch more : Sketch) :
    Sketch.relations (sketch ++ more) = sketch.relations ++ more.relations :=
  List.filterMap_append

@[simp] theorem relations_spread (sketch : Sketch) (key : String) :
    (sketch.spread key).relations = sketch.relations := by
  have kept : relations (sketch.map (rehome key)) = sketch.relations := by
    rw [relations, List.filterMap_map]
    exact congrArg sketch.filterMap (funext fun entry => by rw [Function.comp, node_rehome])
  rw [spread, relations_append, kept]
  exact List.append_nil _

/-- Fanning out adds no step over a relationship. -/
theorem relations_fanned (sketch : Sketch) (key : String) :
    (sketch.fanned key).relations = sketch.relations := by
  unfold fanned
  split
  · rfl
  · exact relations_spread sketch key

/-- A field adds the one step over a relationship that it crosses, if any. -/
theorem relations_own (key : String) (above : Place) (part : Part) :
    (ownEntries key above part).relations = part.relation?.toList := by
  rcases part with property | ⟨_ | relation, entity, filter?⟩ <;> rfl

/-- A filter has no step over a relationship. -/
theorem relation?_group {key : String} {filter : PlannedFilter} {above : Place} :
    ∀ entry ∈ groupEntries key filter above, entry.node.relation? = none := by
  refine List.forall_mem_cons.mpr ⟨rfl, fun entry member => ?_⟩
  obtain ⟨index, found⟩ := List.getElem?_of_mem member
  rw [getElem?_memberEntries] at found
  obtain ⟨field, _, rfl⟩ := Option.map_eq_some_iff.mp found
  rfl

/-- A filter adds no step over a relationship. -/
theorem relations_group (key : String) (filter : PlannedFilter) (above : Place) :
    (groupEntries key filter above).relations = [] :=
  List.filterMap_eq_nil_iff.mpr relation?_group

/-- **A field adds the step that it crosses a relationship with.** -/
theorem relations_add (sketch : Sketch) (mark : Mark) :
    (sketch.add mark).relations = sketch.relations ++ mark.part.relation?.toList := by
  unfold add
  dsimp only
  split
  · rw [relations_append, relations_fanned, relations_own]
  · unfold filtered
    split <;>
      simp only [relations_append, relations_spread, relations_fanned, relations_own,
        relations_group, List.append_nil]

/-- Fields add their steps over relationships in their order. -/
theorem relations_foldl_add (marks : List Mark) (sketch : Sketch) :
    (marks.foldl add sketch).relations =
      sketch.relations ++ marks.filterMap (·.part.relation?) := by
  induction marks generalizing sketch with
  | nil => exact (List.append_nil _).symm
  | cons mark rest ih =>
    rw [List.foldl_cons, ih, relations_add, List.append_assoc, List.filterMap_cons]
    cases mark.part.relation? <;> rfl

/-- Each step over a relationship is that of a field and stands above the object of the field. -/
def Crosses (sketch : Sketch) (marks : List Mark) : Prop :=
  ∀ entry ∈ sketch, ∀ step, entry.node.relation? = some step →
    ∃ mark ∈ marks, ∃ entity filter?, mark.part = .entered (some step) entity filter? ∧
      entry.place = .relation mark.key ∧
      ⟨.object mark.key, .entity entity none, some (.relation mark.key)⟩ ∈ sketch

namespace Crosses

variable {sketch more : Sketch} {marks : List Mark}

/-- What crosses side by side crosses together. -/
theorem append (crosses : sketch.Crosses marks) (crosses' : more.Crosses marks) :
    Crosses (sketch ++ more) marks := by
  refine List.forall_mem_append.mpr ⟨fun entry member step isStep => ?_,
    fun entry member step isStep => ?_⟩
  · obtain ⟨mark, isMark, entity, filter?, isPart, place, below⟩ :=
      crosses entry member step isStep
    exact ⟨mark, isMark, entity, filter?, isPart, place, List.mem_append_left _ below⟩
  · obtain ⟨mark, isMark, entity, filter?, isPart, place, below⟩ :=
      crosses' entry member step isStep
    exact ⟨mark, isMark, entity, filter?, isPart, place, List.mem_append_right _ below⟩

/-- Entries without steps over relationships cross nothing. -/
theorem of_none (plain : ∀ entry ∈ sketch, entry.node.relation? = none) : sketch.Crosses marks := by
  intro entry member step isStep
  rw [plain entry member] at isStep
  contradiction

/-- Fanning out moves no step over a relationship. -/
theorem spread (crosses : sketch.Crosses marks) (key : String) :
    (sketch.spread key).Crosses marks := by
  intro entry member step isStep
  rcases List.mem_append.mp member with old | fan
  · obtain ⟨before, isBefore, rfl⟩ := List.mem_map.mp old
    rw [node_rehome] at isStep
    obtain ⟨mark, isMark, entity, filter?, isPart, place, below⟩ :=
      crosses before isBefore step isStep
    refine ⟨mark, isMark, entity, filter?, isPart, (place_rehome key before).trans place,
      List.mem_append_left _ ?_⟩
    -- What stands below a relationship is below no object, and does not move.
    exact List.mem_map.mpr
      ⟨_, below, if_neg fun moves => Place.noConfusion (Option.some.inj moves.1)⟩
  · rw [List.mem_singleton.mp fan] at isStep
    contradiction

/-- Letting an object fan out moves no step over a relationship. -/
theorem fanned (crosses : sketch.Crosses marks) (key : String) :
    (sketch.fanned key).Crosses marks := by
  unfold Sketch.fanned
  split
  · exact crosses
  · exact crosses.spread key

/-- The step over a relationship that a field crosses stands above its object. -/
theorem own {mark : Mark} (isMark : mark ∈ marks) (above : Place) :
    (ownEntries mark.key above mark.part).Crosses marks := by
  cases isPart : mark.part with
  | shown property => exact of_none (List.forall_mem_singleton.mpr rfl)
  | entered relation? entity filter? =>
    cases relation? with
    | none => exact of_none (List.forall_mem_singleton.mpr rfl)
    | some relation =>
      intro entry member step isStep
      rcases List.mem_pair.mp member with rfl | rfl
      · obtain rfl := Option.some.inj isStep
        exact ⟨mark, isMark, entity, filter?, isPart, rfl,
          List.mem_cons_of_mem _ (List.mem_singleton_self _)⟩
      · contradiction

/-- A filter moves no step over a relationship. -/
theorem filtered (crosses : sketch.Crosses marks) (key : String) (filter : PlannedFilter)
    (above : Place) : (sketch.filtered key filter above).Crosses marks := by
  unfold Sketch.filtered
  split
  · exact crosses.append (of_none relation?_group)
  · exact (crosses.spread key).append (of_none relation?_group)

/-- One more field crosses the relationship above its own object. -/
theorem add (crosses : sketch.Crosses marks) {mark : Mark} (isMark : mark ∈ marks) :
    (sketch.add mark).Crosses marks := by
  have entered := (crosses.fanned mark.around).append
    (own isMark ((sketch.fanned mark.around).anchor mark.around))
  unfold Sketch.add
  dsimp only
  split
  · exact entered
  · exact entered.filtered _ _ _

/-- More fields cross relationships above their own objects. -/
theorem foldl_add {later : List Mark} (known : later ⊆ marks) :
    ∀ {sketch : Sketch}, sketch.Crosses marks → (later.foldl Sketch.add sketch).Crosses marks := by
  induction later with
  | nil => exact id
  | cons mark rest ih =>
    obtain ⟨isMark, known⟩ := List.cons_subset.mp known
    exact fun crosses => ih known (crosses.add isMark)

theorem start : Sketch.start.Crosses marks :=
  of_none (List.forall_mem_singleton.mpr rfl)

end Crosses

end Sketch

namespace Plan

variable {plan : Plan} {sketch : Sketch}

/-- A plan and a sketch that match have the same steps over relationships. -/
theorem Matches.relations (matched : plan.Matches sketch) :
    plan.relations = sketch.relations := by
  have same : plan.slots.map (·.node.bare) = sketch.map Entry.node := by
    refine List.ext_getElem? fun id => ?_
    rw [List.getElem?_map, List.getElem?_map]
    cases found : sketch[id]? with
    | none =>
      have beyond : plan.slots.length ≤ id := by
        rw [show plan.slots.length = sketch.length from matched.sizes]
        exact List.getElem?_eq_none_iff.mp found
      rw [List.getElem?_eq_none beyond, Option.map_none, Option.map_none]
    | some entry =>
      obtain ⟨node, present, same⟩ := matched.nodes found
      obtain ⟨slot, isSlot, rfl⟩ := Option.map_eq_some_iff.mp present
      rw [isSlot, Option.map_some, Option.map_some, same]
  have bare (nodes : Slot → Node) : (plan.slots.map nodes).filterMap Node.relation? =
      plan.slots.filterMap fun slot => (nodes slot).relation? := List.filterMap_map
  calc plan.relations = plan.slots.filterMap fun slot => slot.node.bare.relation? := by
        simp only [Node.relation?_bare, Plan.relations]
    _ = (sketch.map Entry.node).filterMap Node.relation? := by rw [← bare, same]
    _ = sketch.relations := List.filterMap_map

end Plan

namespace Planner

/-- A step over a relationship leads on to the entity of its field, and to nothing else. -/
theorem Draws.relation_leads {planner : Planner} {sketch : Sketch} (draws : planner.Draws sketch)
    {marks : List Mark} (crosses : sketch.Crosses marks) (hangs : sketch.LeavesHang) {id : NodeId}
    {step : RelationStep} {next? : Option NodeId}
    (present : planner.builder.plan.node? id = some (.relation step next?)) :
    ∃ mark ∈ marks, ∃ entity filter?, mark.part = .entered (some step) entity filter? ∧
      ∃ child inner?, next? = some child ∧ planner.builder.plan.children id = [child] ∧
        planner.builder.plan.node? child = some (.entity entity inner?) := by
  obtain ⟨entry, found⟩ : ∃ entry, sketch[id]? = some entry :=
    ⟨_, List.getElem?_eq_getElem (draws.matched.sizes ▸ Plan.lt_size_of_node? present)⟩
  obtain ⟨node, isNode, same⟩ := draws.matched.nodes found
  obtain rfl := Option.some.inj (present.symm.trans isNode)
  obtain ⟨mark, isMark, entity, filter?, isPart, place, below⟩ :=
    crosses entry (List.mem_of_getElem? found) step (by rw [← same]; rfl)
  have isPlace : sketch.places[id]? = some (.relation mark.key) := by
    rw [Plan.Matches.places_of_entry found, place]
  obtain ⟨child, isChild⟩ := List.getElem?_of_mem below
  obtain ⟨held, isHeld, bare⟩ := draws.matched.nodes isChild
  obtain ⟨inner?, rfl⟩ : ∃ inner?, held = .entity entity inner? := by
    cases held with
    | entity step' inner? =>
      rw [show step' = entity from (Node.entity.inj bare).1]
      exact ⟨inner?, rfl⟩
    | _ => exact Node.noConfusion bare
  have leads : (Node.relation step next?).successor? = some child :=
    (draws.matched.successor?_iff draws.running.formed draws.tidy isPlace (fun _ => nofun) present
      isChild).mpr ⟨rfl, rfl⟩
  refine ⟨mark, isMark, entity, filter?, isPart, child, inner?, leads,
    Plan.children_eq_singleton fun other => ⟨fun link => ?_, ?_⟩, isHeld⟩
  · -- No leaf hangs below a relationship, and of other nodes there is one.
    obtain ⟨entry', found'⟩ : ∃ entry, sketch[other]? = some entry :=
      ⟨_, List.getElem?_eq_getElem (draws.matched.sizes ▸ Plan.lt_size_of_parent? link)⟩
    have isAbove := (draws.matched.above?_eq found' link).trans isPlace
    have inner : entry'.node.isLeaf = false := by
      refine (Bool.not_eq_true _).mp fun leaf => ?_
      rcases hangs entry' (List.mem_of_getElem? found') leaf with ⟨_, same⟩ | ⟨_, same⟩ | ⟨_, same⟩
        <;> exact Place.noConfusion (Option.some.inj (isAbove.symm.trans same))
    have leads' := (draws.matched.successor?_iff draws.running.formed draws.tidy isPlace
      (fun _ => nofun) present found').mpr ⟨isAbove, inner⟩
    exact Option.some.inj (leads'.symm.trans leads)
  · rintro rfl
    exact draws.matched.parent?_eq draws.tidy isChild rfl isPlace

end Planner

namespace QueryModel

variable {sources : List String} {model : QueryModel} {request : Request} {plan : Plan}

/-- **The relationships of a plan.** Its steps over relationships are those of the fields that cross
one, in the order of the fields. -/
theorem relations_of_plan (compiled : Schema.compileWithFilters sources = .ok model.schema)
    (planned : model.plan request = .ok plan) :
    plan.relations = (model.calls request).filterMap (·.visit.crossing? model.ontology) := by
  obtain ⟨planner, marks, rfl, same, follows⟩ := follows_of_plan compiled planned
  have crossed (visit : FieldVisit) : visit.crossing? model.ontology =
      (visit.mark? model.ontology).bind (·.part.relation?) := by
    rw [FieldVisit.crossing?, ← FieldVisit.map_part_mark?, Option.bind_map]
    rfl
  calc planner.builder.plan.relations
      = Sketch.start.relations ++ marks.filterMap (·.part.relation?) := by
        rw [follows.matched.relations, Sketch.relations_foldl_add]
    _ = (marks.map some).filterMap (·.bind (·.part.relation?)) := by
        rw [List.filterMap_map]
        rfl
    _ = (model.calls request).filterMap (·.visit.crossing? model.ontology) := by
        rw [← same, List.filterMap_map]
        exact congrArg (List.filterMap · _) (funext fun call => (crossed call.visit).symm)

/-- A field of a request that has a plan is something in it. -/
theorem exists_part?_of_plan (compiled : Schema.compileWithFilters sources = .ok model.schema)
    (planned : model.plan request = .ok plan) :
    ∀ call ∈ model.calls request, ∃ part, call.visit.part? model.ontology = some part := by
  obtain ⟨_, marks, _, same, _⟩ := follows_of_plan compiled planned
  intro call member
  have isMark : call.visit.mark? model.ontology ∈ marks.map some :=
    same ▸ List.mem_map_of_mem member
  obtain ⟨mark, _, isMark⟩ := List.mem_map.mp isMark
  exact ⟨mark.part, by rw [← FieldVisit.map_part_mark?, ← isMark, Option.map_some]⟩

/-- **A step over a relationship leads to the entity of its field,** and to nothing else. -/
theorem relation_leads_of_plan (compiled : Schema.compileWithFilters sources = .ok model.schema)
    (planned : model.plan request = .ok plan) {id : NodeId} {step : RelationStep}
    {next? : Option NodeId} (present : plan.node? id = some (.relation step next?)) :
    ∃ call ∈ model.calls request, ∃ entity filter?,
      call.visit.part? model.ontology = some (.entered (some step) entity filter?) ∧
      ∃ child inner?, next? = some child ∧ plan.children id = [child] ∧
        plan.node? child = some (.entity entity inner?) := by
  obtain ⟨planner, marks, rfl, same, follows⟩ := follows_of_plan compiled planned
  obtain ⟨mark, isMark, entity, filter?, isPart, leads⟩ := follows.relation_leads
    (Sketch.Crosses.start.foldl_add (List.Subset.refl marks))
    (Sketch.LeavesHang.start.foldl_add marks) present
  have made : some mark ∈ (model.calls request).map (·.visit.mark? model.ontology) :=
    same ▸ List.mem_map_of_mem isMark
  obtain ⟨call, member, made⟩ := List.mem_map.mp made
  refine ⟨call, member, entity, filter?, ?_, leads⟩
  rw [← FieldVisit.map_part_mark?, made, Option.map_some, isPart]

end QueryModel

end TraversalQuery
