import TraversalQuery.Planning.Model
import TraversalQuery.Proofs.Plan.Histories
import TraversalQuery.Proofs.Response.Nesting

/-!
# The calls of a planner

What a query model plans for a request comes of the calls that the walk over the request makes of a
planner, one after another, from a planner whose plan has nothing but its root.
-/

namespace TraversalQuery

namespace Planner

/-- A planner whose plan has nothing but its root, where the root fields go. -/
def fresh (name? ontology? : Option String) : Planner :=
  ⟨.started name? ontology?, Positions.empty.set .root Plan.root⟩

/-- A planner on an empty builder begins afresh. -/
theorem ofBuilder_empty (name? ontology? : Option String) :
    ofBuilder (.empty name? ontology?) = .ok (fresh name? ontology?) := by
  have room : (Builder.empty name? ontology?).plan.size < Builder.capacity := Nat.two_pow_pos 32
  have ran := Builder.on_start (.empty name? ontology?) rfl
  rw [if_pos room] at ran
  change Id.run (Builder.start.run.run (.empty name? ontology?)) = _ at ran
  rw [ofBuilder, ran, fresh, Builder.started_eq]
  rfl

/-- A planner that begins has noted the root. -/
theorem fresh_position?_root (name? ontology? : Option String) :
    (fresh name? ontology?).position? .root = some Plan.root :=
  Positions.get?_set_self _ _ _

end Planner

namespace QueryModel

/-- The planner that a request starts with. -/
def start (model : QueryModel) (request : Request) : Planner :=
  .fresh request.operation? (some model.ontology.name)

/-- The calls that a request makes of the planner. -/
def calls (model : QueryModel) (request : Request) : List (ResolverCall Planner PlanError) :=
  model.schema.calls (Planner.resolve model.ontology) request (model.start request)

/-- The planner that a request leaves, whether there is a plan or not. -/
def finish (model : QueryModel) (request : Request) : Planner :=
  ((model.schema.execute (Planner.resolve model.ontology) request).on (model.start request)).2

/-- The plan for a request is what the planner has built after the response. -/
theorem plan_eq (model : QueryModel) (request : Request) :
    model.plan request =
      (((model.schema.execute (Planner.resolve model.ontology) request).on
        (model.start request)).1.mapError planError).map
          fun _ => (model.finish request).builder.plan := by
  rw [plan, Planner.ofBuilder_empty]
  change (do
    let _ ← Except.mapError planError ((model.schema.execute (Planner.resolve model.ontology)
      request).on (model.start request)).1
    Except.ok (model.finish request).builder.plan) = _
  cases ((model.schema.execute (Planner.resolve model.ontology) request).on
    (model.start request)).1 <;> rfl

/-- The reason of the planner why there is no plan, if the reason is of the planner. -/
def refusal? (model : QueryModel) (request : Request) : Option PlanError :=
  Schema.refusal? ((model.schema.execute (Planner.resolve model.ontology) request).on
    (model.start request)).1

/-- A request with a plan was not refused, and the plan is the one that was built. -/
theorem refusal?_of_plan_eq_ok {model : QueryModel} {request : Request} {plan : Plan}
    (planned : model.plan request = .ok plan) :
    model.refusal? request = none ∧ (model.finish request).builder.plan = plan := by
  rw [plan_eq] at planned
  unfold refusal?
  cases came : ((model.schema.execute (Planner.resolve model.ontology) request).on
    (model.start request)).1 with
  | error error =>
    rw [came] at planned
    contradiction
  | ok response =>
    rw [came] at planned
    exact ⟨rfl, Except.ok.inj planned⟩

/-- There is no plan because of the request itself, or because the planner has a reason. -/
theorem refusal?_of_plan_eq_error {model : QueryModel} {request : Request} {error : PlanError}
    (planned : model.plan request = .error error) :
    model.refusal? request = some error ∨ (∃ fault, error = .malformedQuery fault) ∨
      (∃ problems, error = .invalidQuery problems) ∨ error = .endless ∨ error = .unsettled := by
  rw [plan_eq] at planned
  unfold refusal?
  cases came : ((model.schema.execute (Planner.resolve model.ontology) request).on
    (model.start request)).1 with
  | error reason =>
    rw [came] at planned
    obtain rfl : planError reason = error := Except.error.inj planned
    cases reason with
    | refused => exact .inl rfl
    | malformed fault => exact .inr (.inl ⟨fault, rfl⟩)
    | invalid problems => exact .inr (.inr (.inl ⟨problems, rfl⟩))
    | endless => exact .inr (.inr (.inr (.inl rfl)))
    | unsettled => exact .inr (.inr (.inr (.inr rfl)))
  | ok response =>
    rw [came] at planned
    contradiction

/-- Only the planner fails at the builder. -/
theorem refusal?_of_plan_eq_building {model : QueryModel} {request : Request}
    {fault : BuilderError} (planned : model.plan request = .error (.building fault)) :
    model.refusal? request = some (.building fault) := by
  rcases refusal?_of_plan_eq_error planned with refused | ⟨_, same⟩ | ⟨_, same⟩ | same | same
  · exact refused
  all_goals exact PlanError.noConfusion same

/-- **The calls for a plan.** They are arranged as the fields of the request, and lead from the
planner that a request starts with to the one that it leaves. -/
theorem calls_arranged (model : QueryModel) (request : Request) :
    ∃ forest : Forest (ResolverCall Planner PlanError),
      model.calls request = forest.preorder ∧ model.schema.Arranges forest ∧
      Resolver.Transcript (Planner.resolve model.ontology) (model.start request) forest.preorder
        (model.refusal? request) (model.finish request) :=
  model.schema.calls_arranged _ request _

/-- The schema of a model that was derived is compiled. -/
theorem compiled_of_derive {sources : List String} {name : String} {model : QueryModel}
    (derived : derive sources name = .ok model) :
    Schema.compileWithFilters sources = .ok model.schema := by
  obtain ⟨schema, compiled, derived⟩ := Except.of_bind_eq_ok derived
  obtain ⟨ontology, _, derived⟩ := Except.of_bind_eq_ok derived
  rw [← Except.ok.inj derived]
  exact Except.of_mapError_eq_ok compiled

/-- A schema of people and their friends. -/
def peopleSource : String :=
  "type Query \x7b people(id: ID): [Person] \x7d
   type Person \x7b id: ID name: String friends(where: WhereClause): [Person] \x7d"

/-- A request for all people and some of their friends, and then for one of them. -/
def peopleRequest : Request where
  query := "\x7b people \x7b name friends(where: \x7bconstraints: [
      \x7boperand: \"name\", operator: \"like\", expression: \"a\"\x7d]\x7d) \x7b name \x7d \x7d
    one: people(id: 7) \x7b name \x7d \x7d"
  operation? := none
  variableValues := []

end QueryModel

end TraversalQuery
