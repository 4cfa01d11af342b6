import TraversalQuery.Command.Options
import TraversalQuery.Command.Report
import TraversalQuery.Ontology.Stored
import TraversalQuery.Outline.Printer
import TraversalQuery.Plan.Stored

/-!
# Commands

There are three: one plans a query, one shows the ontology of a schema, and one plans several
queries with the same schema. Each works on files and gives the text to be shown.
-/

namespace TraversalQuery

namespace Command

/-- Reads the files of a schema, at least one. -/
def readSchemas (files : Files) : List String → Except CommandError (List SourceFile)
  | [] => .error (.usage "missing schema file")
  | paths => paths.mapM (SourceFile.read files)

/-- Reads an ontology. -/
def readOntology (files : Files) (path : String) : Except CommandError Ontology := do
  let file ← SourceFile.read files path
  (Ontology.decoder.parse file.text).mapError (.malformedJson path)

/-- Reads the values of variables. -/
def readVariables (files : Files) (path : String) : Except CommandError Members := do
  let file ← SourceFile.read files path
  match ← (Json.parse file.text).mapError (.malformedJson path) with
  | .object members => return members
  | _ => throw (.notAnObject path)

/-- The model to plan queries with, with the ontology that the options name or the one of the
schema. -/
def readModel (files : Files) (options : Options) (schemas : List SourceFile) :
    Except CommandError QueryModel := do
  let sources := schemas.map (·.text)
  let model ← match options.ontology? with
    | some path => do
      let ontology ← readOntology files path
      pure (QueryModel.withOntology sources ontology)
    | none => pure (QueryModel.derive sources options.ontologyName)
  model.mapError (CommandError.ofPlanError schemas none)

/-- A plan as it is shown. -/
def planText (format : OutputFormat) (plan : Plan) : String :=
  match format with
  | .tree => (plan.outline?.map Outline.text).getD ""
  | .json => plan.json.pretty

/-- The plan of a query file as it is shown. -/
def planFile (model : QueryModel) (options : Options) (schemas : List SourceFile)
    (values : Members) (query : SourceFile) : Except CommandError String := do
  let plan ← (model.plan ⟨query.text, options.operation?, values⟩).mapError
    (CommandError.ofPlanError schemas (some query))
  return planText options.format plan

/-- Plans the query that the options name. -/
def planQuery (files : Files) (options : Options) : Except CommandError String := do
  match options.query? with
  | none => throw (.usage "missing query file (--query=<file>)")
  | some path =>
    let schemas ← readSchemas files options.inputs
    let query ← SourceFile.read files path
    let values ← match options.variables? with
      | some path => readVariables files path
      | none => pure []
    let model ← readModel files options schemas
    planFile model options schemas values query

/-- Shows the ontology of a schema. -/
def showOntology (files : Files) (options : Options) : Except CommandError String := do
  let schemas ← readSchemas files options.inputs
  let model ← (QueryModel.derive (schemas.map (·.text)) options.ontologyName).mapError
    (CommandError.ofPlanError schemas none)
  return model.ontology.json.pretty

/-- What came of planning several queries, by their paths. -/
structure BatchResult where
  entries : List (String × Except CommandError String)

namespace BatchResult

/-- How many queries have no plan. -/
def failures (result : BatchResult) : Nat :=
  (result.entries.filter fun (_, outcome) => !outcome.toBool).length

/-- What came of a query, under its path. -/
def entryText : String × Except CommandError String → String
  | (path, .ok output) => s!"== {path} ==\n{output}"
  | (path, .error error) => s!"== {path} ==\nerror: {error.message}\n"

/-- What came of all queries, one after another. -/
def text (result : BatchResult) : String :=
  String.join (result.entries.map entryText)

end BatchResult

/-- Plans several queries with the schema of the first file. A query without a plan does not stop
the others. -/
def planBatch (files : Files) (options : Options) : Except CommandError BatchResult := do
  match options.inputs with
  | [] => throw (.usage "missing schema file")
  | [_] => throw (.usage "no query files given")
  | schema :: queries =>
    let schemas ← readSchemas files [schema]
    let model ← readModel files options schemas
    return ⟨queries.map fun path =>
      (path, SourceFile.read files path >>= planFile model options schemas [])⟩

end Command

end TraversalQuery
