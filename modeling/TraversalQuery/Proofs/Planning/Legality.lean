import TraversalQuery.Proofs.Plan.Extends
import TraversalQuery.Proofs.Planning.Calls

/-!
# Planning is legal

A planner only moves to nodes that it has noted, and only inserts where something can be inserted.
The walk comes to fields inside an object after the object, whose place in the plan is noted by
then. So no operation of the builder fails while there are numbers left for nodes, and no field is
left out of the plan because nobody knows where the object around it is.
-/

namespace TraversalQuery

open Builder (capacity)

namespace Build

variable {α : Type}

/-- On a builder at work, an operation does what is asked of it and only adds to the plan, or it
runs out of numbers for nodes. -/
def Legal (operation : Build α) (builder : Builder) (good : α → Builder → Prop) : Prop :=
  match operation.on builder with
  | (.ok value, after) =>
    after.Running ∧ builder.plan.Extends after.plan ∧ good value after
  | (.error error, after) => error = .exhausted ∧ capacity ≤ after.plan.size

/-- A legal operation that succeeds has done what was asked of it. -/
theorem Legal.of_ok {operation : Build α} {builder after : Builder}
    {good : α → Builder → Prop} (legal : operation.Legal builder good) {value : α}
    (ran : operation.on builder = (.ok value, after)) :
    after.Running ∧ builder.plan.Extends after.plan ∧ good value after := by
  unfold Legal at legal
  rw [ran] at legal
  exact legal

end Build

namespace Builder

variable {builder : Builder}

/-- Moving to a node at which something can be inserted is legal. -/
theorem legal_moveTo (running : builder.Running) {id : NodeId} (isOpen : builder.plan.Open id) :
    (moveTo id).Legal builder fun _ after => after = { builder with cursor? := some id } := by
  obtain ⟨here, placed, _⟩ := running.placed
  have started : builder.cursor? ≠ none := by
    rw [placed]
    exact Option.some_ne_none here
  rw [Build.Legal, on_moveTo, if_neg started, if_neg (Nat.not_le_of_lt isOpen.lt_size)]
  exact ⟨⟨running.formed, id, rfl, isOpen.lt_size⟩, .refl _, rfl⟩

/-- Entering is legal at a node at which something can be inserted. -/
theorem legal_enter (running : builder.Running) (call : BuilderCall) {here : NodeId}
    (placed : builder.cursor? = some here) (isOpen : builder.plan.Open here) {node : Node}
    (unlinked : node.bare = node) (inner : node.isLeaf = false)
    (notStart : node.isStart = false) :
    (enter call node).Legal builder fun id after =>
      after.plan.Open id ∧ after.cursor? = some id := by
  have safe := safe_enter call unlinked inner notStart builder running
  unfold Build.Legal
  rw [on_enter, target_of_open builder call placed isOpen] at safe ⊢
  dsimp only at safe ⊢
  by_cases room : builder.plan.size < capacity
  · rw [if_pos room] at safe ⊢
    refine ⟨safe (by simp), .attach Node.bare_followedBy isOpen.lt_size, ⟨node, ?_, inner⟩, rfl⟩
    rw [Plan.node?_attach _ _ _ isOpen.lt_size, if_pos rfl]
  · rw [if_neg room]
    exact ⟨rfl, Nat.le_of_not_lt room⟩

/-- Adding a property is legal at a node at which something can be inserted. -/
theorem legal_addProperty (running : builder.Running) {here : NodeId}
    (placed : builder.cursor? = some here) (isOpen : builder.plan.Open here)
    (property : Property) : (addProperty property).Legal builder fun _ _ => True := by
  have safe := safe_addProperty property builder running
  unfold Build.Legal
  rw [on_addProperty, target_of_open builder _ placed isOpen] at safe ⊢
  dsimp only at safe ⊢
  by_cases room : builder.plan.size < capacity
  · rw [if_pos room] at safe ⊢
    exact ⟨safe (by simp), .attach Node.bare_holding isOpen.lt_size, trivial⟩
  · rw [if_neg room]
    exact ⟨rfl, Nat.le_of_not_lt room⟩

/-- Adding a quantifier is legal at a node at which something can be inserted. -/
theorem legal_addQuantifier (running : builder.Running) {here : NodeId}
    (placed : builder.cursor? = some here) (isOpen : builder.plan.Open here)
    (kind : Quantifier) :
    (addQuantifier kind).Legal builder fun id after => after.plan.Open id := by
  have safe := safe_addQuantifier kind builder running
  unfold Build.Legal
  rw [on_addQuantifier, target_of_open builder _ placed isOpen] at safe ⊢
  dsimp only at safe ⊢
  by_cases room : builder.plan.size < capacity
  · rw [if_pos room] at safe ⊢
    have fresh := (Plan.node?_splice builder.plan kind isOpen.lt_size
      ((builder.plan.node? here).bind Node.successor?) builder.plan.size).trans (if_pos rfl)
    exact ⟨safe (by simp), .splice isOpen.lt_size, _, fresh, rfl⟩
  · rw [if_neg room]
    exact ⟨rfl, Nat.le_of_not_lt room⟩

/-- Adding a group is legal at a node at which something can be inserted. -/
theorem legal_addGroup (running : builder.Running) {here : NodeId}
    (placed : builder.cursor? = some here) (isOpen : builder.plan.Open here)
    (fields : List (String × Option Constraint)) (kind : Quantifier) :
    (addGroup fields kind).Legal builder fun _ _ => True := by
  have safe := safe_addGroup fields kind builder running
  unfold Build.Legal
  rw [on_addGroup, target_of_open builder _ placed isOpen] at safe ⊢
  dsimp only at safe ⊢
  by_cases enough : builder.plan.size + 1 + fields.length ≤ capacity
  · rw [if_pos enough] at safe ⊢
    exact ⟨safe (by simp), .attachGroup, trivial⟩
  · rw [if_neg enough]
    by_cases room : builder.plan.size < capacity
    · rw [if_pos room]
      refine ⟨rfl, ?_⟩
      dsimp only
      rw [Plan.size_pushMembers, Plan.size_push, List.length_take]
      omega
    · rw [if_neg room]
      exact ⟨rfl, Nat.le_of_not_lt room⟩

/-- Ascending is always legal. -/
theorem legal_ascend (running : builder.Running) (accepts : NodeId → Node → Bool) :
    (ascend accepts).Legal builder fun ascent after => after = builder ∧
      ∀ target, ascent.found? = some target →
        ∃ node, builder.plan.node? target = some node ∧ accepts target node = true := by
  obtain ⟨here, placed, _⟩ := running.placed
  rw [Build.Legal, on_ascend, placed]
  exact ⟨running, .refl _, rfl, fun _ => Plan.accepts_of_climb _⟩

end Builder

namespace Planner

variable {α β : Type} {planner : Planner}

/-- A planner at work: so is its builder, and something can be inserted at every node it noted. -/
structure Ready (planner : Planner) : Prop where
  running : planner.builder.Running
  opened : ∀ {path id}, planner.position? path = some id → planner.builder.plan.Open id

/-- A later planner has added to the plan, and knows all places that were known before. -/
structure Before (planner later : Planner) : Prop where
  grown : planner.builder.plan.Extends later.builder.plan
  known : ∀ {path}, (planner.position? path).isSome → (later.position? path).isSome

theorem Before.refl (planner : Planner) : planner.Before planner :=
  ⟨.refl _, id⟩

/-- What was known stays known from each planner to the next. -/
theorem Before.trans {later latest : Planner} (first : planner.Before later)
    (second : later.Before latest) : planner.Before latest :=
  ⟨first.grown.trans second.grown, fun known => second.known (first.known known)⟩

/-- What an action of a planner comes to: it does what is asked of it, or it fails, but at the
builder only when that runs out of numbers for nodes. -/
def Legal (action : Planning α) (planner : Planner) (good : α → Planner → Prop) : Prop :=
  match action.on planner with
  | (.ok value, after) => after.Ready ∧ planner.Before after ∧ good value after
  | (.error error, after) => ∀ fault, error = .building fault →
      fault = .exhausted ∧ capacity ≤ after.builder.plan.size

theorem legal_pure {value : α} {good : α → Planner → Prop} (ready : planner.Ready)
    (holds : good value planner) : Legal (pure value) planner good :=
  ⟨ready, .refl _, holds⟩

/-- Failing is legal for all reasons but those of the builder. -/
theorem legal_throw {error : PlanError} {good : α → Planner → Prop}
    (other : ∀ fault, error ≠ .building fault) : Legal (throw error) planner good :=
  fun fault same => absurd same (other fault)

/-- Legal actions can follow each other. -/
theorem Legal.bind {action : Planning α} {next : α → Planning β} {good : α → Planner → Prop}
    {fine : β → Planner → Prop} (first : Legal action planner good)
    (second : ∀ value after, after.Ready → planner.Before after → good value after →
      Legal (next value) after fine) : Legal (action >>= next) planner fine := by
  unfold Legal at first ⊢
  rw [ExceptT.on_bind]
  rcases ran : action.on planner with ⟨error | value, between⟩
  · rw [ran] at first
    exact first
  · rw [ran] at first
    obtain ⟨ready, before, holds⟩ := first
    have rest := second value between ready before holds
    unfold Legal at rest
    rcases ran' : (next value).on between with ⟨error | result, after⟩
    · rw [ran'] at rest
      simp only [ran']
      exact rest
    · rw [ran'] at rest
      simp only [ran']
      exact ⟨rest.1, before.trans rest.2.1, rest.2.2⟩

/-- What an operation of the builder does to a planner. -/
theorem on_building (operation : Build α) (planner : Planner) :
    (building operation).on planner =
      ((operation.on planner.builder).1.mapError .building,
        { planner with builder := (operation.on planner.builder).2 }) := by
  rw [building, ExceptT.on_bind, ExceptT.on_get]
  rcases ran : operation.on planner.builder with ⟨_ | value, after⟩ <;>
    · change Id.run (operation.run.run planner.builder) = _ at ran
      simp only [ran]
      rfl

/-- What is legal for the builder is legal for the planner. -/
theorem legal_building {operation : Build α} {good : α → Builder → Prop} (ready : planner.Ready)
    (legal : operation.Legal planner.builder good) :
    Legal (building operation) planner fun value after =>
      good value after.builder ∧ after.positions = planner.positions := by
  unfold Legal
  unfold Build.Legal at legal
  rw [on_building]
  rcases ran : operation.on planner.builder with ⟨error | value, after⟩ <;> rw [ran] at legal
  · intro fault same
    obtain rfl := PlanError.building.inj same
    exact legal
  · obtain ⟨running, grown, holds⟩ := legal
    exact ⟨⟨running, fun found => grown.opened (ready.opened found)⟩, ⟨grown, id⟩, holds, rfl⟩

/-- A node that is noted is found for its path, and others as before. -/
theorem position?_record (planner : Planner) (path other : ResponsePath) (id : NodeId) :
    position? { planner with positions := planner.positions.set path id } other =
      if other.positionKey = path.positionKey then some id else planner.position? other := by
  unfold position?
  split
  · rename_i same
    rw [Positions.get?, same]
    exact Positions.get?_set_self _ _ _
  · rename_i different
    exact Positions.get?_set_of_ne _ _ different

/-- Noting a node at which something can be inserted is legal. -/
theorem legal_record (ready : planner.Ready) {id : NodeId} (isOpen : planner.builder.plan.Open id)
    (path : ResponsePath) :
    Legal (record path id) planner fun _ after =>
      after.builder = planner.builder ∧ after.position? path = some id := by
  have known := planner.position?_record path
  refine ⟨⟨ready.running, fun {other _} found => ?_⟩, ⟨.refl _, fun {other} found => ?_⟩, rfl, ?_⟩
  · rw [known] at found
    split at found
    · rw [← Option.some.inj found]
      exact isOpen
    · exact ready.opened found
  · rw [known]
    split
    · rfl
    · exact found
  · rw [known, if_pos rfl]

/-- Moving to a node that is noted. -/
theorem legal_move (ready : planner.Ready) {id : NodeId} (isOpen : planner.builder.plan.Open id) :
    Legal (building (Builder.moveTo id)) planner fun _ after =>
      after = { planner with builder := { planner.builder with cursor? := some id } } := by
  unfold Legal
  have legal := legal_building ready (Builder.legal_moveTo ready.running isOpen)
  unfold Legal at legal
  rcases ran : (building (Builder.moveTo id)).on planner with ⟨error | value, builder, positions⟩
  · rw [ran] at legal
    exact legal
  · rw [ran] at legal
    obtain ⟨ready, before, same, kept⟩ := legal
    exact ⟨ready, before, by rw [← same, ← kept]⟩

/-- A legal action does all that follows from what is asked of it. -/
theorem Legal.mono {action : Planning α} {good fine : α → Planner → Prop}
    (legal : Legal action planner good)
    (weaker : ∀ value after, planner.Before after → good value after → fine value after) :
    Legal action planner fine := by
  unfold Legal at legal ⊢
  rcases ran : action.on planner with ⟨error | value, after⟩ <;> rw [ran] at legal
  · exact legal
  · exact ⟨legal.1, legal.2.1, weaker value after legal.2.1 legal.2.2⟩

/-- Looking at the planner is legal. -/
theorem Legal.get {next : Planner → Planning α} {good : α → Planner → Prop}
    (rest : Legal (next planner) planner good) : Legal (get >>= next) planner good := by
  unfold Legal
  rw [ExceptT.on_bind, ExceptT.on_get]
  exact rest

/-- Fanning out is legal. -/
theorem legal_fanOut (ready : planner.Ready) (path : ResponsePath) (atRoot : Bool) :
    Legal (fanOut path atRoot) planner fun _ _ => True := by
  refine .get ?_
  split
  · exact legal_pure ready trivial
  · rename_i here found
    split
    · exact legal_pure ready trivial
    · split
      · exact legal_pure ready trivial
      · have isOpen := ready.opened found
        apply (legal_move ready isOpen).bind
        intro _ after ready _ moved
        subst moved
        refine (legal_building ready (Builder.legal_addQuantifier ready.running rfl isOpen _)).bind
          fun id after ready _ made => ?_
        exact (legal_record ready made.1 path).mono fun _ _ _ _ => trivial

section

variable (ready : planner.Ready) {here : NodeId} (placed : planner.builder.cursor? = some here)
  (isOpen : planner.builder.plan.Open here)
include ready placed isOpen

/-- Entering an entity is legal at a node at which something can be inserted. -/
theorem legal_enterEntity (entity : EntityType) (tag : String) (arguments : Members) :
    Legal (building (enterEntity entity tag arguments)) planner fun id after =>
      after.builder.plan.Open id := by
  unfold enterEntity
  split
  · exact (legal_building ready (Builder.legal_enter ready.running _ placed isOpen
      (by rfl) (by rfl) (by rfl))).mono fun _ _ _ made => made.1.1
  · exact (legal_building ready (Builder.legal_enter ready.running _ placed isOpen
      (by rfl) (by rfl) (by rfl))).mono fun _ _ _ made => made.1.1

/-- Entering a relationship is legal at a node at which something can be inserted. -/
theorem legal_enterRelation (ontology : Ontology) (visit : FieldVisit) :
    Legal (enterRelation ontology visit) planner fun _ after =>
      ∃ here, after.builder.cursor? = some here ∧ after.builder.plan.Open here := by
  unfold enterRelation
  dsimp only
  split
  · exact (legal_building ready (Builder.legal_enter ready.running _ placed isOpen
      (by rfl) (by rfl) (by rfl))).bind fun id after ready _ made =>
        legal_pure ready ⟨id, made.1.2, made.1.1⟩
  · exact legal_pure ready ⟨here, placed, isOpen⟩

/-- Showing a property is legal at a node at which something can be inserted. -/
theorem legal_project (ontology : Ontology) (visit : FieldVisit) (output : SchemaType) :
    Legal (project ontology visit output) planner fun answer _ => answer ≠ .object := by
  unfold project
  dsimp only
  split
  · exact legal_throw fun _ => PlanError.noConfusion
  · refine (legal_building ready
      (Builder.legal_addProperty ready.running placed isOpen _)).bind fun _ _ ready _ _ => ?_
    refine legal_pure ready ?_
    cases output.placeholder? visit.definition.name <;> exact Answer.noConfusion

end

/-- Finding where a filter goes is legal. -/
theorem legal_filterScope (ready : planner.Ready) {entered : NodeId}
    (isOpen : planner.builder.plan.Open entered) (path : ResponsePath) :
    Legal (filterScope path entered) planner fun id after => after.builder.plan.Open id := by
  unfold filterScope
  apply (legal_move ready isOpen).bind
  intro _ after ready _ moved
  subst moved
  refine (legal_building ready (Builder.legal_ascend ready.running _)).bind
    fun ascent after ready before climbed => ?_
  obtain ⟨⟨same, found⟩, _⟩ := climbed
  split
  · rename_i quantifier isFound
    obtain ⟨node, present, accepted⟩ := found quantifier isFound
    refine legal_pure ready (same ▸ ⟨node, present, ?_⟩)
    cases node with
    | quantifier => rfl
    | _ => contradiction
  · have isOpen := before.grown.opened isOpen
    apply (legal_move ready isOpen).bind
    intro _ after ready _ moved
    subst moved
    refine (legal_building ready (Builder.legal_addQuantifier ready.running rfl isOpen _)).bind
      fun id after ready _ made => ?_
    exact (legal_record ready made.1 path).bind fun _ after ready _ noted =>
      legal_pure ready (noted.1 ▸ made.1)

/-- Constraints fail to be read for no reason but an unknown operator. -/
theorem of_mapM_read_eq_error {path : String} {error : PlanError} :
    ∀ {constraints : List WrittenConstraint},
      constraints.mapM (WrittenConstraint.read path) = .error error →
        ∃ operator, error = .unknownOperator operator path := by
  intro constraints
  induction constraints with
  | nil => exact nofun
  | cons constraint rest ih =>
    intro fails
    rw [List.mapM_cons] at fails
    rcases Except.of_bind_eq_error fails with first | ⟨read, _, fails⟩
    · unfold WrittenConstraint.read at first
      split at first
      · exact ⟨_, (Except.error.inj first).symm⟩
      · contradiction
    · rcases Except.of_bind_eq_error fails with later | ⟨_, _, never⟩
      · exact ih later
      · contradiction

/-- A filter cannot be read when its form is wrong, or when an operator is not known. -/
theorem of_decode_eq_error {value : Json} {site : String} {error : PlanError}
    (fails : FilterClause.decode value site = .error error) :
    (∃ reason, WrittenClause.decoder.decode value = .error reason ∧
        error = .malformedFilter site reason) ∨
      ∃ operator, error = .unknownOperator operator site := by
  rcases Except.of_bind_eq_error fails with written | ⟨written, _, fails⟩
  · exact .inl (Except.of_mapError_eq_error written)
  · rcases Except.of_bind_eq_error fails with unread | ⟨_, _, never⟩
    · exact .inr (of_mapM_read_eq_error unread)
    · contradiction

/-- A filter that cannot be read is no fault of the builder. -/
theorem decode_ne_building {value : Json} {site : String} {error : PlanError}
    (fails : FilterClause.decode value site = .error error) (fault : BuilderError) :
    error ≠ .building fault := by
  rcases of_decode_eq_error fails with ⟨reason, _, rfl⟩ | ⟨operator, rfl⟩ <;>
    exact PlanError.noConfusion

/-- Filtering is legal. -/
theorem legal_filter (ready : planner.Ready) {entered : NodeId}
    (isOpen : planner.builder.plan.Open entered) (ontology : Ontology) (visit : FieldVisit)
    (entity : EntityType) (value : Json) :
    Legal (filter ontology visit entity entered value) planner fun _ _ => True := by
  unfold filter
  dsimp only
  have reading : Legal (ExceptT.mk (pure (FilterClause.decode value
      (visit.path.text ++ "(" ++ FilterClause.argumentName ++ ")")))) planner
      fun _ after => after = planner := by
    unfold Legal
    rw [ExceptT.on_mk_pure]
    cases decoded : FilterClause.decode value
        (visit.path.text ++ "(" ++ FilterClause.argumentName ++ ")") with
    | error error => exact fun fault same => absurd same (decode_ne_building decoded fault)
    | ok clause => exact ⟨ready, .refl _, rfl⟩
  apply reading.bind
  intro clause after ready _ same
  subst same
  split
  · apply (legal_filterScope ready isOpen visit.path).bind
    intro scope after ready _ isOpen
    apply (legal_move ready isOpen).bind
    intro _ after ready _ moved
    subst moved
    exact (legal_building ready (Builder.legal_addGroup ready.running rfl isOpen _ _)).bind
      fun _ _ ready _ _ => legal_pure ready trivial
  · have stops : Legal (throw (.unknownOperands (clause.unknownOperands entity.hasProperty)
        entity.name visit.path.text)) after fun (_ : PUnit) _ => False :=
      legal_throw fun _ => PlanError.noConfusion
    exact stops.bind fun _ _ _ _ never => never.elim

/-- A field with an object has a place in the plan afterwards. -/
theorem legal_enter (ready : planner.Ready) {here : NodeId}
    (placed : planner.builder.cursor? = some here) (isOpen : planner.builder.plan.Open here)
    (ontology : Ontology) (visit : FieldVisit) (target : SchemaType) :
    Legal (enter ontology visit target) planner fun _ after =>
      (after.position? visit.path).isSome := by
  unfold enter
  split
  · exact legal_throw fun _ => PlanError.noConfusion
  · rename_i entity found
    refine (legal_enterRelation ready placed isOpen ontology visit).bind
      fun _ after ready _ ⟨here, placed, isOpen⟩ => ?_
    refine (legal_enterEntity ready placed isOpen entity _ _).bind
      fun entered after ready _ isOpen => ?_
    apply (legal_record ready isOpen visit.path).bind
    intro _ after ready before noted
    have known : (after.position? visit.path).isSome := by rw [noted.2, Option.isSome_some]
    split
    · exact legal_pure ready known
    · exact (legal_filter ready (before.grown.opened isOpen) ontology visit entity _).bind
        fun _ _ ready later _ => legal_pure ready (later.known known)

/-- **Nothing is inserted where nothing can be.** A planner at work stays at work whichever field it
is asked about, and notes the place of the object that it answers. -/
theorem legal_resolve (ready : planner.Ready) (ontology : Ontology) (visit : FieldVisit) :
    Legal (resolve ontology visit) planner fun answer after =>
      answer = .object → (after.position? visit.path).isSome := by
  unfold resolve
  split
  · exact legal_pure ready Answer.noConfusion
  · rename_i output _
    apply (legal_fanOut ready _ _).bind
    intro _ after ready before _
    refine .get ?_
    split
    · exact legal_pure ready Answer.noConfusion
    · rename_i anchor found
      have isOpen := ready.opened found
      apply (legal_move ready isOpen).bind
      intro _ after ready _ moved
      subst moved
      split
      · exact (legal_enter ready rfl isOpen ontology visit output).mono fun _ _ _ known _ => known
      · split
        · exact (legal_project ready rfl isOpen ontology visit output).mono
            fun _ _ _ plain same => absurd same plain
        · exact legal_pure ready Answer.noConfusion

/-- A planner is ready when it begins. -/
theorem ready_fresh (name? ontology? : Option String) : (fresh name? ontology?).Ready := by
  refine ⟨Builder.running_started name? ontology?, fun {path id} found => ?_⟩
  have known := position?_record ⟨Builder.started name? ontology?, .empty⟩ .root path Plan.root
  obtain ⟨next?, isStart⟩ := (Builder.running_started name? ontology?).formed.startsAtRoot
  change (fresh name? ontology?).position? path = _ at known
  rw [known] at found
  split at found
  · rw [← Option.some.inj found]
    exact ⟨_, isStart, rfl⟩
  · contradiction

/-- A call that finds the place of the object around its field, at a node to insert at. -/
def Placed (call : ResolverCall Planner PlanError) : Prop :=
  ∃ anchor, call.before.position? call.visit.parentPath = some anchor ∧
    call.before.builder.plan.Open anchor

/-- Along the calls of a walk, the places of all objects answered so far are known. -/
theorem placed_of_transcript {ontology : Ontology} {later : Planner}
    {calls : List (ResolverCall Planner PlanError)} {failure? : Option PlanError}
    (script : Resolver.Transcript (resolve ontology) planner calls failure? later)
    (ready : planner.Ready) {past : List (ResolverCall Planner PlanError)}
    (nested : ResolverCall.ParentsFirst past calls) (root : (planner.position? .root).isSome)
    (known : ∀ above ∈ past, above.answer = .ok .object →
      (planner.position? above.visit.path).isSome) :
    (∀ call ∈ calls, Placed call) ∧ ∀ fault, failure? = some (.building fault) →
      fault = .exhausted ∧ capacity ≤ later.builder.plan.size := by
  have place {planner : Planner} {visit : FieldVisit} {answer : Except PlanError Answer}
      {past : List (ResolverCall Planner PlanError)} (ready : planner.Ready)
      (root : (planner.position? .root).isSome)
      (known : ∀ above ∈ past, above.answer = .ok .object →
        (planner.position? above.visit.path).isSome)
      (inside : visit.parent? = none ∨
        ∃ above ∈ past, above.Holds (⟨visit, planner, answer⟩ : ResolverCall _ _)) :
      Placed ⟨visit, planner, answer⟩ := by
    have found : (planner.position? visit.parentPath).isSome := by
      rcases inside with top | ⟨above, member, holds⟩
      · rw [FieldVisit.parentPath, top]
        exact root
      · have within : visit.parent? = _ := holds.inside
        rw [FieldVisit.parentPath, within]
        exact known above member holds.answered
    obtain ⟨anchor, isAnchor⟩ := Option.isSome_iff_exists.mp found
    exact ⟨anchor, isAnchor, ready.opened isAnchor⟩
  induction script generalizing past with
  | done => exact ⟨List.forall_mem_nil _, nofun⟩
  | @failed planner after visit error fails =>
    refine ⟨List.forall_mem_singleton.mpr (place ready root known nested.1), fun fault same => ?_⟩
    have legal := legal_resolve ready ontology visit
    rw [Legal, fails] at legal
    exact legal fault (Option.some.inj same)
  | @step planner between after visit answer rest failure? answers later ih =>
    have legal := legal_resolve ready ontology visit
    rw [Legal, answers] at legal
    obtain ⟨ready', before, noted⟩ := legal
    have rest := ih ready' nested.2 (before.known root) (List.forall_mem_append.mpr
      ⟨fun above member answered => before.known (known above member answered),
        List.forall_mem_singleton.mpr fun answered => noted (Except.ok.inj answered)⟩)
    exact ⟨List.forall_mem_cons.mpr ⟨place ready root known nested.1, rest.1⟩, rest.2⟩

end Planner

namespace QueryModel

/-- **Planning never misuses the builder.** For every model and request, planning fails at the
builder only when the plan has all the nodes there are numbers for. No field is left out because the
place of the object around it is not known: every call finds it, at a node to insert at. -/
theorem plan_uses_builder_legally (model : QueryModel) (request : Request) :
    (match model.plan request with
      | .error (.building fault) =>
        fault = .exhausted ∧ capacity ≤ (model.finish request).builder.plan.size
      | _ => True) ∧
    ∀ call ∈ model.calls request, Planner.Placed call := by
  obtain ⟨forest, made, arranged, script⟩ := model.calls_arranged request
  have root : ((model.start request).position? .root).isSome := by
    rw [start, Planner.fresh_position?_root, Option.isSome_some]
  have legal := Planner.placed_of_transcript script (Planner.ready_fresh _ _)
    arranged.parentsFirst root (List.forall_mem_nil _)
  rw [made]
  refine ⟨?_, legal.1⟩
  split
  · rename_i fault planned
    exact legal.2 fault (refusal?_of_plan_eq_building planned)
  · trivial

end QueryModel

end TraversalQuery
