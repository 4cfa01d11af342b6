import TraversalQuery.Planning.Planner
import TraversalQuery.Response.Request

/-!
# Query models

A query model is what queries are planned with: a schema that they have to fit and an ontology that
names what they are about. A session holds at most one.
-/

namespace TraversalQuery

/-- A schema and an ontology to plan queries with. -/
structure QueryModel where
  schema : Schema
  ontology : Ontology
deriving Inhabited

namespace QueryModel

/-- The model of schema sources with the ontology that is read off the schema. -/
def derive (sources : List String) (name : String) : Except PlanError QueryModel := do
  let schema ← (Schema.compileWithFilters sources).mapError .schema
  let ontology ← (Ontology.ofSchema name schema).mapError .ontology
  return ⟨schema, ontology⟩

/-- The model of schema sources with an ontology from elsewhere. -/
def withOntology (sources : List String) (ontology : Ontology) : Except PlanError QueryModel := do
  let schema ← (Schema.compileWithFilters sources).mapError .schema
  return ⟨schema, ontology⟩

/-- Why a request has no response, as the reason that a query has no plan. -/
def planError : RequestError PlanError → PlanError
  | .malformed error => .malformedQuery error
  | .invalid problems => .invalidQuery problems
  | .refused error => error
  | .endless => .endless
  | .unsettled => .unsettled

/-- The plan of a request. It is named for the operation that is asked for. -/
def plan (model : QueryModel) (request : Request) : Except PlanError Plan := do
  let planner ← Planner.ofBuilder (.empty request.operation? (some model.ontology.name))
  let (result, planner) :=
    Id.run ((model.schema.execute (Planner.resolve model.ontology) request).run.run planner)
  let _ ← result.mapError planError
  return planner.builder.plan

end QueryModel

/-- A place for one query model. -/
structure Session where
  model? : Option QueryModel
deriving Inhabited

namespace Session

/-- A session without a model. -/
def empty : Session := ⟨none⟩

/-- A session after an attempt at a new model. A failure leaves it as it is. -/
def replaced (session : Session) : Except PlanError QueryModel → Except PlanError Unit × Session
  | .ok model => (.ok (), ⟨some model⟩)
  | .error error => (.error error, session)

/-- Gives a session the model of schema sources and the ontology that is read off them. -/
def compile (session : Session) (sources : List String) (name : String) :
    Except PlanError Unit × Session :=
  session.replaced (QueryModel.derive sources name)

/-- Gives a session the model of schema sources and an ontology from elsewhere. -/
def compileWith (session : Session) (sources : List String) (ontology : Ontology) :
    Except PlanError Unit × Session :=
  session.replaced (QueryModel.withOntology sources ontology)

/-- The plan of a request, with the model of the session. -/
def plan (session : Session) (request : Request) : Except PlanError Plan :=
  match session.model? with
  | none => .error .notCompiled
  | some model => model.plan request

end Session

end TraversalQuery
