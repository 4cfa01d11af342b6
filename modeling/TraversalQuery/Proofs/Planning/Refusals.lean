import TraversalQuery.Proofs.Planning.Legality

/-!
# Why a field has no place in a plan

A planner refuses a field for reasons that can be told from the field and the ontology alone,
whatever is in the plan by then: the ontology lacks a name, or the filter of the field cannot be
read or tests what its entity does not have. Besides, the builder can fail. If a request that is
ready to be walked has no plan, one of its fields was refused.
-/

namespace TraversalQuery

/-- The reasons of a planner against a field. -/
inductive FieldVisit.Refused (ontology : Ontology) (visit : FieldVisit) : PlanError → Prop
  | building (fault : BuilderError) : Refused ontology visit (.building fault)
  | entity {output : SchemaType} (isOutput : visit.output? = some output)
      (composite : output.kind.isComposite = true)
      (missing : ontology.entity? output.name = none) :
      Refused ontology visit (.notInOntology .entityType output.name visit.path.text)
  | property {output : SchemaType} (isOutput : visit.output? = some output)
      (leaf : output.kind.isLeaf = true)
      (missing : ontology.property? visit.definition.name = none) :
      Refused ontology visit (.notInOntology .property visit.definition.name visit.path.text)
  | unreadable {value : Json} {error : PlanError}
      (isValue : Planner.filterValue? visit.arguments = some value)
      (fails : FilterClause.decode value
        (visit.path.text ++ "(" ++ FilterClause.argumentName ++ ")") = .error error) :
      Refused ontology visit error
  | operands (unknown : List String) (entity : String) :
      Refused ontology visit (.unknownOperands unknown entity visit.path.text)

namespace Planner

variable {α β : Type} {reasons : PlanError → Prop}

/-- Whatever planner does it, an action fails for none but some reasons. -/
def FailsFor (reasons : PlanError → Prop) (action : Planning α) : Prop :=
  ∀ (planner after : Planner) (error : PlanError),
    action.on planner = (.error error, after) → reasons error

theorem failsFor_pure (value : α) : FailsFor reasons (pure value) := by
  intro planner after error ran
  cases ran

theorem failsFor_throw {error : PlanError} (reason : reasons error) :
    FailsFor reasons (throw error : Planning α) := by
  intro planner after error ran
  cases ran
  exact reason

/-- A sequence of actions fails for the reasons of its parts. -/
theorem FailsFor.bind {action : Planning α} {next : α → Planning β}
    (first : FailsFor reasons action) (second : ∀ value, FailsFor reasons (next value)) :
    FailsFor reasons (action >>= next) := by
  intro planner after error ran
  rw [ExceptT.on_bind] at ran
  rcases came : action.on planner with ⟨_ | value, between⟩
  · rw [came] at ran
    cases ran
    exact first _ _ _ came
  · rw [came] at ran
    exact second value _ _ _ ran

theorem failsFor_get : FailsFor reasons (get : Planning Planner) := by
  intro planner after error ran
  cases ran

theorem failsFor_record (path : ResponsePath) (id : NodeId) :
    FailsFor reasons (record path id) := by
  intro planner after error ran
  cases ran

section

variable (faults : ∀ fault, reasons (.building fault))
include faults

/-- The builder fails for its own reasons. -/
theorem failsFor_building (operation : Build α) : FailsFor reasons (building operation) := by
  intro planner after error ran
  rw [on_building] at ran
  obtain ⟨fault, _, rfl⟩ := Except.of_mapError_eq_error (Prod.mk.inj ran).1
  exact faults fault

/-- Fanning out fails for no reason but the builder's. -/
theorem failsFor_fanOut (path : ResponsePath) (atRoot : Bool) :
    FailsFor reasons (fanOut path atRoot) := by
  refine failsFor_get.bind fun planner => ?_
  split
  · exact failsFor_pure _
  · split
    · exact failsFor_pure _
    · split
      · exact failsFor_pure _
      · exact (failsFor_building faults _).bind fun _ =>
          (failsFor_building faults _).bind fun id => failsFor_record path id

/-- Entering a relationship fails for no reason but the builder's. -/
theorem failsFor_enterRelation (ontology : Ontology) (visit : FieldVisit) :
    FailsFor reasons (enterRelation ontology visit) := by
  unfold enterRelation
  dsimp only
  split
  · exact (failsFor_building faults _).bind fun _ => failsFor_pure _
  · exact failsFor_pure _

/-- Finding where a filter goes fails for no reason but the builder's. -/
theorem failsFor_filterScope (path : ResponsePath) (entered : NodeId) :
    FailsFor reasons (filterScope path entered) := by
  refine (failsFor_building faults _).bind fun _ => ?_
  refine (failsFor_building faults _).bind fun ascent => ?_
  split
  · exact failsFor_pure _
  · exact (failsFor_building faults _).bind fun _ => (failsFor_building faults _).bind fun id =>
      (failsFor_record path id).bind fun _ => failsFor_pure _

/-- Filtering fails where the filter cannot be read or tests what is unknown. -/
theorem failsFor_filter {ontology : Ontology} {visit : FieldVisit} {entity : EntityType}
    {value : Json} (unreadable : ∀ error, FilterClause.decode value
      (visit.path.text ++ "(" ++ FilterClause.argumentName ++ ")") = .error error → reasons error)
    (operands : ∀ unknown, reasons (.unknownOperands unknown entity.name visit.path.text))
    (entered : NodeId) : FailsFor reasons (filter ontology visit entity entered value) := by
  have reading : FailsFor reasons (ExceptT.mk (pure (FilterClause.decode value
      (visit.path.text ++ "(" ++ FilterClause.argumentName ++ ")"))) : Planning FilterClause) := by
    intro planner after error ran
    rw [ExceptT.on_mk_pure] at ran
    exact unreadable error (Prod.mk.inj ran).1
  unfold filter
  dsimp only
  refine reading.bind fun clause => ?_
  split
  · exact (failsFor_filterScope faults _ _).bind fun scope =>
      (failsFor_building faults _).bind fun _ => (failsFor_building faults _).bind fun _ =>
        failsFor_pure _
  · exact (failsFor_throw (operands _)).bind fun _ => (failsFor_filterScope faults _ _).bind
      fun scope => (failsFor_building faults _).bind fun _ => (failsFor_building faults _).bind
        fun _ => failsFor_pure _

end

/-- **A planner refuses a field for nothing but what is wrong with the field.** -/
theorem failsFor_resolve (ontology : Ontology) (visit : FieldVisit) :
    FailsFor (visit.Refused ontology) (resolve ontology visit) := by
  have faults : ∀ fault, visit.Refused ontology (.building fault) := .building
  unfold resolve
  split
  · exact failsFor_pure _
  · rename_i output isOutput
    refine (failsFor_fanOut faults _ _).bind fun _ => failsFor_get.bind fun planner => ?_
    split
    · exact failsFor_pure _
    · refine (failsFor_building faults _).bind fun _ => ?_
      split
      · rename_i composite
        unfold enter
        split
        · rename_i missing
          exact failsFor_throw (.entity isOutput composite missing)
        · rename_i entity _
          refine (failsFor_enterRelation faults ontology visit).bind fun _ =>
            (failsFor_building faults _).bind fun entered =>
              (failsFor_record _ _).bind fun _ => ?_
          split
          · exact failsFor_pure _
          · rename_i value isValue
            exact (failsFor_filter faults (fun _ => .unreadable isValue)
              (fun unknown => .operands unknown entity.name) entered).bind fun _ => failsFor_pure _
      · split
        · rename_i leaf
          unfold project
          dsimp only
          split
          · rename_i missing
            exact failsFor_throw (.property isOutput leaf missing)
          · exact (failsFor_building faults _).bind fun _ => failsFor_pure _
        · exact failsFor_pure _

/-- A planner that fails does so at a call, for a reason against its field. -/
theorem refused_of_transcript {ontology : Ontology} {planner later : Planner}
    {calls : List (ResolverCall Planner PlanError)} {failure? : Option PlanError}
    (script : Resolver.Transcript (resolve ontology) planner calls failure? later)
    {error : PlanError} (isFailure : failure? = some error) :
    ∃ call ∈ calls, call.visit.Refused ontology error := by
  induction script with
  | done => contradiction
  | failed fails =>
    obtain rfl := Option.some.inj isFailure
    exact ⟨_, List.mem_singleton_self _, failsFor_resolve ontology _ _ _ _ fails⟩
  | step _ _ ih =>
    obtain ⟨call, member, refused⟩ := ih isFailure
    exact ⟨call, List.mem_cons_of_mem _ member, refused⟩

end Planner

/-- **Without a plan, a field was refused,** unless the request itself has no response. -/
theorem QueryModel.refused_of_plan_eq_error {model : QueryModel} {request : Request}
    {error : PlanError} (planned : model.plan request = .error error) :
    (∃ call ∈ model.calls request, call.visit.Refused model.ontology error) ∨
      (∃ fault, error = .malformedQuery fault) ∨ (∃ problems, error = .invalidQuery problems) ∨
        error = .endless ∨ error = .unsettled := by
  refine (refusal?_of_plan_eq_error planned).imp (fun isFailure => ?_) id
  obtain ⟨forest, made, _, script⟩ := model.calls_arranged request
  obtain ⟨call, member, refused⟩ := Planner.refused_of_transcript script isFailure
  exact ⟨call, made ▸ member, refused⟩

end TraversalQuery
