import TraversalQuery.Command.Run

/-!
# The command line

The first argument names the command and the rest are its options. What comes of it is a text for
each of the two streams and an exit code.
-/

namespace TraversalQuery

namespace Command

/-- What a command line comes to. -/
structure Outcome where
  code : Nat
  output : String
  errors : String
deriving DecidableEq, Inhabited, Repr

namespace Outcome

/-- Lines, each ended. -/
def lines (texts : List String) : String :=
  String.join (texts.map (· ++ "\n"))

/-- Success with an output. -/
def success (output : String) : Outcome := ⟨0, output, ""⟩

/-- Failure with lines about why. -/
def failure (output : String) (errors : List String) : Outcome := ⟨1, output, lines errors⟩

/-- The failure of a command. -/
def ofError : CommandError → Outcome
  | .malformedSource file error => ⟨1, "", file.report error⟩
  | other => failure "" ["error: " ++ other.message]

/-- A text that ends in a line feed, one being added if there is none. -/
def ended (text : String) : String :=
  if text.toList.getLast? = some '\n' then text else text ++ "\n"

/-- What a command with a single output comes to. -/
def ofResult : Except CommandError String → Outcome
  | .ok output => success (ended output)
  | .error error => ofError error

/-- What planning several queries comes to. -/
def ofBatch : Except CommandError BatchResult → Outcome
  | .error error => ofError error
  | .ok result =>
    if result.failures = 0 then success result.text
    else failure result.text
      [s!"error: {result.failures} of {result.entries.length} queries failed"]

/-- An outcome after lines of warning. -/
def after (warnings : List String) (outcome : Outcome) : Outcome :=
  { outcome with errors := lines warnings ++ outcome.errors }

end Outcome

/-- The help text. -/
def help : String :=
  Outcome.lines
    ["TQL: GraphQL to Traversal IR translator",
      "",
      "Usage: tqlc <command> [options]",
      "",
      "Commands:",
      "  translate <schema>... --query=<file>   Translate one query",
      "  ontology <schema>...                   Print the derived ontology as JSON",
      "  batch <schema> <query>...              Translate several queries in parallel",
      "  help                                   Show this help message",
      "  version                                Show version information",
      "",
      "Options:",
      "  --query=<file>       Query document to translate",
      "  --vars=<file>        Query variables (JSON object)",
      "  --ontology=<file>    Use this ontology instead of deriving one",
      "  --operation=<name>   Operation to translate in a multi-operation document",
      "  --name=<name>        Name of the derived ontology (default: default)",
      "  --format=<fmt>       Output: tree (default), json",
      "",
      "Environment:",
      "  RUST_LOG=tql_translate=debug   Log translation steps",
      "  TQL_LOG_TREE=1                 Log as a tree of per-field spans",
      "",
      "Examples:",
      "  tqlc translate library.graphql --query=books.graphql",
      "  tqlc translate library.graphql --query=find.graphql --vars=find.json --format=json",
      "  tqlc ontology library.graphql --name=library",
      "  tqlc batch library.graphql queries/*.graphql"]

/-- The version line. -/
def version : String := Outcome.lines ["tqlc 0.1.0"]

/-- How the command for one query is used. -/
def planUsage : List String :=
  ["Usage: tqlc translate <schema.graphql>... --query=<file> [options]",
    "",
    "Options:",
    "  --vars=<file>        Query variables (JSON object)",
    "  --ontology=<file>    Use this ontology instead of deriving one",
    "  --operation=<name>   Operation to translate",
    "  --format=<fmt>       Output: tree (default), json"]

/-- How the command for ontologies is used. -/
def ontologyUsage : List String :=
  ["Usage: tqlc ontology <schema.graphql>... [--name=<name>]"]

/-- How the command for several queries is used. -/
def batchUsage : List String :=
  ["Usage: tqlc batch <schema.graphql> <query>... [options]"]

/-- What a command with its options comes to, warnings aside. -/
def perform (files : Files) (command : String) (options : Options) : Outcome :=
  match command with
  | "translate" =>
    if options.inputs.isEmpty || options.query?.isNone then .failure "" planUsage
    else .ofResult (planQuery files options)
  | "ontology" =>
    if options.inputs.isEmpty then .failure "" ontologyUsage
    else .ofResult (showOntology files options)
  | "batch" =>
    if options.inputs.length < 2 then .failure "" batchUsage
    else .ofBatch (planBatch files options)
  | "help" => .success help
  | "--help" => .success help
  | "-h" => .success help
  | "version" => .success version
  | "--version" => .success version
  | "-v" => .success version
  | other => .failure help [s!"Unknown command: {other}", ""]

/-- What a command line comes to. -/
def run (files : Files) : List String → Outcome
  | [] => .success help
  | command :: arguments =>
    (perform files command (Options.ofArguments arguments)).after (Options.warnings arguments)

/-- The paths of the files that options name. -/
def Options.paths (options : Options) : List String :=
  options.inputs ++ options.query?.toList ++ options.variables?.toList ++ options.ontology?.toList

end Command

end TraversalQuery
