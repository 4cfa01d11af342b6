import TraversalQuery.Proofs.Planning.Growth
import TraversalQuery.Proofs.Planning.Rules
import TraversalQuery.Proofs.Planning.Visits

/-!
# The tree of a plan

The plan of a query is the drawing of its fields. The planner follows the sketch that the fields are
added to, the sketch is like the tree of the fields, and a plan that matches a sketch draws what the
sketch is like.
-/

namespace TraversalQuery

namespace Sketch

/-- The start of a sketch can take the fields of any query. -/
theorem awaits_start {marks : Forest Mark} (hung : Hung rootKey marks)
    (nodup : (marks.preorder.map Mark.key).Nodup)
    (inner : ∀ mark ∈ marks.preorder, mark.key ≠ rootKey) : start.Awaits rootKey marks where
  hung := hung
  nodup := nodup
  inner := fun mark member => ⟨inner mark member, inner mark member⟩
  untouched := fun mark member => List.forall_mem_singleton.mpr ⟨(inner mark member).symm, nofun⟩

/-- **The sketch of a query is like its tree.** -/
theorem alike_rootTree {marks : Forest Mark} (awaits : start.Awaits rootKey marks) :
    ∃ more : Sketch, marks.preorder.foldl add start = start ++ more ∧
      Alike (start ++ more) (rootTree marks).preorder := by
  obtain ⟨more, added, alike⟩ := grows_root marks (by decide) (by decide) awaits
  refine ⟨more, added, ?_⟩
  rw [rootTree, Forest.preorder_tree]
  exact Alike.append (.refl start) alike

/-- A sketch in which exactly the entries on top of the forest below an entry are below its
place. -/
def Bears (sketch : Sketch) : Forest Entry → Prop
  | .nil => True
  | .node entry below rest =>
    sketch.filter (·.above? = some entry.place) = below.roots ∧ sketch.Bears below ∧
      sketch.Bears rest

/-- In a linked forest nothing is below a place that is neither in it nor above it. -/
theorem Linked.filter_eq_nil {above? : Option Place} {forest : Forest Entry}
    (linked : Linked above? forest) {other? : Option Place}
    (outside : ∀ entry ∈ forest.preorder, other? ≠ some entry.place) (other : above? ≠ other?) :
    forest.preorder.filter (·.above? = other?) = [] := by
  induction forest generalizing above? with
  | nil => rfl
  | node entry below rest ihBelow ihRest =>
    obtain ⟨isAbove, inside, beside⟩ := linked
    rw [Forest.preorder] at outside ⊢
    obtain ⟨notHere, outside⟩ := List.forall_mem_cons.mp outside
    obtain ⟨outsideBelow, outsideRest⟩ := List.forall_mem_append.mp outside
    rw [List.filter_cons_of_neg (by simpa [isAbove] using other), List.filter_append,
      ihBelow inside outsideBelow notHere.symm, ihRest beside outsideRest other, List.append_nil]

/-- In a linked forest the entries on top, and no others, are below the place above it. -/
theorem Linked.filter_eq_roots {above? : Option Place} {forest : Forest Entry}
    (linked : Linked above? forest)
    (outside : ∀ entry ∈ forest.preorder, above? ≠ some entry.place) :
    forest.preorder.filter (·.above? = above?) = forest.roots := by
  induction forest with
  | nil => rfl
  | node entry below rest _ ih =>
    obtain ⟨isAbove, inside, beside⟩ := linked
    rw [Forest.preorder] at outside ⊢
    obtain ⟨notHere, outside⟩ := List.forall_mem_cons.mp outside
    obtain ⟨outsideBelow, outsideRest⟩ := List.forall_mem_append.mp outside
    rw [Forest.roots, List.filter_cons_of_pos (by simpa using isAbove), List.filter_append,
      inside.filter_eq_nil outsideBelow notHere.symm, ih beside outsideRest, List.nil_append]

/-- A sketch that is like a linked forest bears it. -/
theorem Linked.bears {above? : Option Place} {forest : Forest Entry} {sketch : Sketch}
    (linked : Linked above? forest) (nodup : (forest.preorder.map Entry.place).Nodup)
    (outside : ∀ entry ∈ forest.preorder, above? ≠ some entry.place)
    (alike : ∀ entry ∈ forest.preorder, sketch.filter (·.above? = some entry.place) =
      forest.preorder.filter (·.above? = some entry.place)) : sketch.Bears forest := by
  induction forest generalizing above? with
  | nil => trivial
  | node entry below rest ihBelow ihRest =>
    obtain ⟨isAbove, inside, beside⟩ := linked
    rw [Forest.preorder, List.map_cons, List.map_append, List.nodup_cons, List.mem_append,
      not_or] at nodup
    obtain ⟨⟨notBelow, notRest⟩, nodup⟩ := nodup
    obtain ⟨nodupBelow, nodupRest, apart⟩ := List.nodup_append.mp nodup
    rw [Forest.preorder] at outside alike
    obtain ⟨notHere, outside⟩ := List.forall_mem_cons.mp outside
    obtain ⟨outsideBelow, outsideRest⟩ := List.forall_mem_append.mp outside
    obtain ⟨here, alike⟩ := List.forall_mem_cons.mp alike
    obtain ⟨alikeBelow, alikeRest⟩ := List.forall_mem_append.mp alike
    have absent : ∀ other ∈ below.preorder, some entry.place ≠ some other.place :=
      fun other member same => notBelow (Option.some.inj same ▸ List.mem_map_of_mem member)
    have absent' : ∀ other ∈ rest.preorder, some entry.place ≠ some other.place :=
      fun other member same => notRest (Option.some.inj same ▸ List.mem_map_of_mem member)
    -- An entry of one of the two parts has nothing below it in the other.
    refine ⟨?_, ihBelow inside nodupBelow absent fun other member => ?_,
      ihRest beside nodupRest outsideRest fun other member => ?_⟩
    · rw [here, List.filter_cons_of_neg (by simpa [isAbove] using notHere), List.filter_append,
        inside.filter_eq_roots absent, beside.filter_eq_nil absent' notHere, List.append_nil]
    · have apart' : ∀ later ∈ rest.preorder, some other.place ≠ some later.place :=
        fun later isLater same => apart _ (List.mem_map_of_mem member) _
          (List.mem_map_of_mem isLater) (Option.some.inj same)
      rw [alikeBelow other member,
        List.filter_cons_of_neg (by simpa [isAbove] using outsideBelow other member),
        List.filter_append, beside.filter_eq_nil apart' (outsideBelow other member),
        List.append_nil]
    · have apart' : ∀ inner ∈ below.preorder, some other.place ≠ some inner.place :=
        fun inner isInner same => apart _ (List.mem_map_of_mem isInner) _
          (List.mem_map_of_mem member) (Option.some.inj same).symm
      rw [alikeRest other member,
        List.filter_cons_of_neg (by simpa [isAbove] using outsideRest other member),
        List.filter_append, inside.filter_eq_nil apart' (absent' other member), List.nil_append]

end Sketch

namespace Plan

variable {plan : Plan} {sketch : Sketch}

/-- The nodes below a node stand for the entries below its place. -/
theorem Matches.children (matched : plan.Matches sketch) (tidy : sketch.Tidy) {id : NodeId}
    {place : Place} (isPlace : sketch.places[id]? = some place) :
    (plan.children id).map (sketch[·]?) = (sketch.filter (·.above? = some place)).map some := by
  have numbered : plan.ids.map (sketch[·]?) = sketch.map some := by
    rw [ids, matched.sizes]
    apply List.ext_getElem (by simp)
    intro index inside inside'
    rw [List.getElem_map, List.getElem_map, List.getElem_range, List.getElem?_eq_getElem]
  have placed : ∀ child ∈ plan.ids, (plan.parent? child == some id) =
      (sketch[child]?).any (·.above? = some place) := by
    intro child member
    have inside : child < sketch.length := matched.sizes ▸ List.mem_range.mp member
    rw [List.getElem?_eq_getElem inside, Option.any_some]
    have found := List.getElem?_eq_getElem inside
    refine Bool.eq_iff_iff.mpr ?_
    rw [beq_iff_eq, decide_eq_true_iff]
    exact ⟨fun link => (matched.above?_eq found link).trans isPlace,
      fun isAbove => matched.parent?_eq tidy found isAbove isPlace⟩
  rw [children_eq_filter, List.filter_congr placed]
  calc (plan.ids.filter fun child => (sketch[child]?).any (·.above? = some place)).map (sketch[·]?)
      = (plan.ids.map (sketch[·]?)).filter (·.any (·.above? = some place)) := by
        rw [List.filter_map]; rfl
    _ = (sketch.map some).filter (·.any (·.above? = some place)) := by rw [numbered]
    _ = (sketch.filter (·.above? = some place)).map some := by
        rw [List.filter_map]; rfl

/-- A plan that matches a sketch draws the trees that the sketch bears. -/
theorem Matches.draws (matched : plan.Matches sketch) (tidy : sketch.Tidy) {forest : Forest Entry}
    (bears : sketch.Bears forest) {ids : List NodeId}
    (tops : ids.map (sketch[·]?) = forest.roots.map some) :
    plan.Draws (forest.map Entry.node) ids := by
  induction forest generalizing ids with
  | nil => exact List.map_eq_nil_iff.mp tops
  | node entry below rest ihBelow ihRest =>
    obtain ⟨here, inside, beside⟩ := bears
    rw [Forest.roots, List.map_cons] at tops
    obtain ⟨id, others, rfl, found, tops⟩ := List.map_eq_cons_iff.mp tops
    obtain ⟨node, present, same⟩ := matched.nodes found
    refine ⟨id, others, rfl, by rw [present, Option.map_some, same], ihBelow inside ?_,
      ihRest beside tops⟩
    rw [matched.children tidy (Matches.places_of_entry found), here]

end Plan

namespace ResolverCall

variable {σ ε : Type} {ontology : Ontology}

/-- The fields of nested calls are inside one another as the calls are. -/
theorem Nested.hung {parent? : Option ParentField} {calls : Forest (ResolverCall σ ε)}
    {marks : Forest Mark} (nested : Nested parent? calls)
    (same : calls.map (·.visit.mark? ontology) = marks.map some) :
    Sketch.Hung ((parent?.map ParentField.path).getD .root).positionKey marks := by
  induction calls generalizing parent? marks with
  | nil =>
    cases marks with
    | nil => trivial
    | node => contradiction
  | node call below rest ihBelow ihRest =>
    cases marks with
    | nil => contradiction
    | node mark below' rest' =>
      obtain ⟨isParent, inner, inside, beside⟩ := nested
      obtain ⟨isMark, sameBelow, sameRest⟩ := Forest.node.inj same
      obtain ⟨part, isPart, rfl⟩ := Option.map_eq_some_iff.mp isMark
      refine ⟨?_, ?_, ihBelow inside sameBelow, ihRest beside sameRest⟩
      · rw [← isParent, FieldVisit.parentPath_eq]
      · refine inner.imp (fun none => ?_) fun composite =>
          FieldVisit.entered_of_isComposite composite isPart
        subst none
        cases below' with
        | nil => rfl
        | node => contradiction

end ResolverCall

namespace QueryModel

/-- **The plan of a query is the drawing of its fields.** The calls that a request makes of the
planner are nested like the fields, each of them becomes one part of the plan by the rules, and the
tree of the plan, its nodes in the order of their numbers below each, is the one that the parts
draw. -/
theorem plan_draws_parts {sources : List String} {model : QueryModel} {request : Request}
    {plan : Plan} (compiled : Schema.compileWithFilters sources = .ok model.schema)
    (planned : model.plan request = .ok plan) :
    ∃ (calls : Forest (ResolverCall Planner PlanError)) (parts : Forest Part),
      model.calls request = calls.preorder ∧ ResolverCall.Nested none calls ∧
      calls.Related (fun call part => call.visit.Becomes model.ontology part) parts ∧
      (∀ others, calls.Related (fun call part => call.visit.Becomes model.ontology part) others →
        others = parts) ∧
      plan.Draws (Drawing.ofParts parts) [Plan.root] := by
  obtain ⟨calls, made, arranged, script⟩ := model.calls_arranged request
  obtain ⟨success, isPlan⟩ := refusal?_of_plan_eq_ok planned
  have visits := arranged.visits ⟨_, .inr compiled⟩
  obtain ⟨marked, isMarked, follows⟩ := Planner.follows_transcript script success
    (Planner.follows_fresh _ _) Planner.shows_start visits arranged.parentsFirst.visits
  obtain ⟨marks, same, rfl⟩ := Forest.exists_map_eq isMarked
  have hung := arranged.nested.hung same
  have keys : marks.preorder.map Mark.key =
      (calls.preorder.map (·.visit)).map (·.path.positionKey) :=
    FieldVisit.keys_of_marks (by rw [List.map_map]; exact isMarked)
  have inner : ∀ mark ∈ marks.preorder, mark.key ≠ Sketch.rootKey := by
    intro mark member
    have isKey : mark.key ∈ marks.preorder.map Mark.key := List.mem_map_of_mem member
    rw [keys] at isKey
    obtain ⟨visit, isVisit, isKey⟩ := List.mem_map.mp isKey
    rw [← isKey]
    exact visits.inside visit isVisit
  obtain ⟨more, added, alike⟩ := Sketch.alike_rootTree
    (Sketch.awaits_start hung (keys ▸ visits.keyed) inner)
  rw [added] at follows
  have bears : Sketch.Bears (Sketch.start ++ more) (Sketch.rootTree marks) :=
    (Sketch.linked_rootTree hung).bears
      ((alike.perm.map Entry.place).nodup_iff.mp follows.tidy.nodup) (fun _ _ => nofun)
      fun entry _ => alike (some entry.place)
  have draws : Plan.Draws _ _ [Plan.root] := follows.matched.draws follows.tidy bears rfl
  rw [Sketch.map_node_rootTree] at draws
  have becomes : calls.Related (fun call part => call.visit.Becomes model.ontology part)
      (marks.map Mark.part) := by
    refine (Forest.related_iff fun call part => call.visit.part?_eq_some_iff).mp ?_
    calc calls.map (·.visit.part? model.ontology)
        = (calls.map (·.visit.mark? model.ontology)).map (Option.map Mark.part) := by
          rw [Forest.map_map]
          exact congrArg calls.map (funext fun call => call.visit.map_part_mark?.symm)
      _ = (marks.map Mark.part).map some := by
          rw [same, Forest.map_map, Forest.map_map]
          rfl
  have single (call : ResolverCall Planner PlanError) (part other : Part)
      (first : call.visit.Becomes model.ontology part)
      (second : call.visit.Becomes model.ontology other) : part = other :=
    first.unique second
  exact ⟨calls, marks.map Mark.part, made, arranged.nested, becomes,
    fun others => becomes.unique single, isPlan ▸ draws⟩

/-- The nodes of the plan for people, each with the node above it. -/
def peopleNodes : List (Option NodeId × Option Node) :=
  [(none, some (.start none)),
    (some 10, some (.entity ⟨"people", "Person", none⟩ none)),
    (some 1, some (.quantifier .every [])),
    (some 2, some (.property ⟨.entity, "name", .shown⟩)),
    (some 2, some (.relation ⟨"has_Person", .forward, "friends"⟩ none)),
    (some 4, some (.entity ⟨"friends", "Person", none⟩ none)),
    (some 2, some (.group .every [])),
    (some 6, some (.property ⟨.entity, "name", .tested ⟨.like, some "a"⟩⟩)),
    (some 5, some (.quantifier .every [])),
    (some 8, some (.property ⟨.entity, "name", .shown⟩)),
    (some 0, some (.quantifier .every [])),
    (some 10, some (.entity ⟨"people", "Person", some ⟨"7", none⟩⟩ none)),
    (some 11, some (.quantifier .every [])),
    (some 12, some (.property ⟨.entity, "name", .shown⟩))]

/-- The plan of a request with an object inside another, a filter, and a second field at the root
that picks one person, is drawn by its fields. -/
theorem plan_draws_parts_people : ∃ (model : QueryModel) (plan : Plan),
    Schema.compileWithFilters [peopleSource] = .ok model.schema ∧
      model.plan peopleRequest = .ok plan ∧
      plan.ids.map (fun id => (plan.parent? id, (plan.node? id).map Node.bare)) = peopleNodes ∧
      ∃ (calls : Forest (ResolverCall Planner PlanError)) (parts : Forest Part),
        model.calls peopleRequest = calls.preorder ∧ ResolverCall.Nested none calls ∧
        calls.Related (fun call part => call.visit.Becomes model.ontology part) parts ∧
        (∀ others, calls.Related (fun call part => call.visit.Becomes model.ontology part) others →
          others = parts) ∧
        plan.Draws (Drawing.ofParts parts) [Plan.root] := by
  have ran : ((derive [peopleSource] "people").bind (·.plan peopleRequest)).toOption.map
      (fun plan => plan.ids.map fun id => (plan.parent? id, (plan.node? id).map Node.bare)) =
        some peopleNodes := by
    decide +kernel
  obtain ⟨plan, planned, nodes⟩ := Option.map_eq_some_iff.mp ran
  obtain ⟨model, derived, planned⟩ := Except.of_bind_eq_ok (Except.of_toOption_eq_some planned)
  have compiled := compiled_of_derive derived
  exact ⟨model, plan, compiled, planned, nodes, plan_draws_parts compiled planned⟩

end QueryModel

end TraversalQuery
