import TraversalQuery.Json.Decoder
import TraversalQuery.Ontology.Derived
import TraversalQuery.Plan.Builder
import TraversalQuery.Schema.Compile
import TraversalQuery.Typing.Problem

/-!
# Planning errors

Why there is no plan for a query. An error ends planning: there is a complete plan or an error.
-/

namespace TraversalQuery

/-- What can be missing from an ontology. -/
inductive OntologyElement where
  | entityType
  | property
deriving DecidableEq, Inhabited, Repr

namespace OntologyElement

/-- What is missing, in words. -/
def text : OntologyElement → String
  | .entityType => "entity type"
  | .property => "property"

end OntologyElement

/-- Why there is no plan. -/
inductive PlanError where
  | invalidQuery (problems : List Problem)
  | unknownOperands (operands : List String) (entity path : String)
  | unknownOperator (operator path : String)
  | malformedFilter (path : String) (reason : Json.Mismatch)
  | notInOntology (element : OntologyElement) (name path : String)
  | notCompiled
  | malformedQuery (error : SyntaxError)
  | schema (error : SchemaError)
  | ontology (error : OntologyError)
  | building (error : BuilderError)
  | endless
  | unsettled

namespace PlanError

/-- Names in quotes. -/
def quoted (names : List String) : String :=
  ", ".intercalate (names.map fun name => s!"`{name}`")

/-- Why there is no plan, in words. -/
def message : PlanError → String
  | .invalidQuery problems => "query does not match the schema: " ++ Problem.joined problems
  | .unknownOperands operands entity path =>
    let plural := if operands.length = 1 then "" else "s"
    s!"unknown constraint operand{plural} {quoted operands} on entity `{entity}` (at {path})"
  | .unknownOperator operator path =>
    s!"unknown constraint operator `{operator}` (at {path})"
  | .malformedFilter path reason => s!"malformed where clause at {path}: {reason.message}"
  | .notInOntology element name path =>
    s!"no {element.text} `{name}` in the ontology (at {path})"
  | .notCompiled => "no schema compiled; call `compile` before translating"
  | .malformedQuery error => s!"query does not parse: {error.text}"
  | .schema error => error.message
  | .ontology error => error.message
  | .building error => s!"traversal builder misuse: {error.message}"
  | .endless => "query has no end"
  | .unsettled => "a default leads back to itself"

end PlanError

end TraversalQuery
