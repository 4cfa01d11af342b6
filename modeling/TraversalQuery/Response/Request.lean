import TraversalQuery.Document.Grammar
import TraversalQuery.Response.Walk
import TraversalQuery.Typing.Query

/-!
# Requests

A request is a query text with the operation to run and the values of its variables. It is read and
checked before the walk begins, so a resolver sees nothing of a request that has problems.
-/

namespace TraversalQuery

/-- A query text, the name of the operation to run, and the values of its variables. -/
structure Request where
  query : String
  operation? : Option String
  variableValues : Members
deriving Inhabited

/-- Why a request has no response. -/
inductive RequestError (ε : Type) where
  | malformed (error : SyntaxError)
  | invalid (problems : List Problem)
  | refused (error : ε)
  | endless
  | unsettled

namespace RequestError

/-- Why a request has no response, in words. -/
def message {ε : Type} (describe : ε → String) : RequestError ε → String
  | .malformed error => s!"query does not parse: {error.text}"
  | .invalid problems => s!"query is invalid: {Problem.joined problems}"
  | .refused error => s!"resolver failed: {describe error}"
  | .endless => "query has no end"
  | .unsettled => "a default leads back to itself"

end RequestError

/-- Why a document is not ready to be walked: it has problems, or the default of a variable is never
read. -/
inductive Unready where
  | problems (problems : List Problem)
  | unsettled

/-- A request ready to be walked: the operation, its root type and what the walk looks up. -/
structure PreparedRequest where
  operation : Operation
  root : SchemaType
  scope : QueryScope

namespace Schema

/-- A document ready to be walked, or why it is not. -/
def prepare (schema : Schema) (document : Document) (operation? : Option String)
    (provided : Members) : Except Unready PreparedRequest := do
  let problems := document.problems schema operation?
  unless problems.isEmpty do throw (.problems problems)
  let operation ← (document.selectOperation operation?).mapError (.problems [·])
  unless Input.variablesSettle schema operation.variableDefinitions provided do throw .unsettled
  let values ←
    (Input.operationValues schema operation.variableDefinitions provided).mapError .problems
  match schema.rootType? operation.kind with
  | none => throw (.problems [.overall (.unsupportedOperation operation.kind)])
  | some root => return ⟨operation, root, ⟨schema, document.fragments, values⟩⟩

/-- Why a document is not ready, as the reason that a request has no response. -/
def unreadyError {ε : Type} : Unready → RequestError ε
  | .problems problems => .invalid problems
  | .unsettled => .unsettled

/-- A request ready to be walked, or why it is not. -/
def prepareRequest {ε : Type} (schema : Schema) (request : Request) :
    Except (RequestError ε) PreparedRequest := do
  let document ← (Document.parse request.query).mapError .malformed
  (schema.prepare document request.operation? request.variableValues).mapError unreadyError

variable {σ ε : Type}

/-- Why a walk ended early, as the reason that a request has no response. -/
def requestError : WalkStop ε → RequestError ε
  | .refused error => .refused error
  | .endless => .endless
  | .unsettled => .unsettled

/-- The response to a request. -/
def execute (schema : Schema) (resolve : Resolver σ ε) (request : Request) :
    ExceptT (RequestError ε) (StateM σ) Json := do
  let prepared ← ExceptT.mk (pure (schema.prepareRequest request))
  ExceptT.adapt requestError
    (prepared.scope.respond resolve prepared.root prepared.operation.selections)

end Schema

end TraversalQuery
