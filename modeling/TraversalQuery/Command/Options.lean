import TraversalQuery.Text.Split

/-!
# Options

The arguments of a command: options of the form `--name=value` and, in between, the files it works
on. A later option counts before an earlier one of its name. Options that are not known are warned
about and skipped.
-/

namespace TraversalQuery

namespace Command

/-- How a plan is shown: as an outline or as JSON. -/
inductive OutputFormat where
  | tree
  | json
deriving DecidableEq, Inhabited, Repr

namespace OutputFormat

/-- The format of a name. -/
def ofText? : String → Option OutputFormat
  | "tree" => some .tree
  | "json" => some .json
  | _ => none

end OutputFormat

/-- What an argument says. -/
inductive Setting where
  | input (path : String)
  | query (path : String)
  | values (path : String)
  | ontology (path : String)
  | operation (name : String)
  | name (name : String)
  | format (format : OutputFormat)
  | unknownFormat (text : String)
  | unknownOption (text : String)
deriving DecidableEq, Inhabited, Repr

namespace Setting

/-- The option that names a format, which may not be known. -/
def ofFormat (text : String) : Setting :=
  match OutputFormat.ofText? text with
  | some known => .format known
  | none => .unknownFormat text

/-- The options that take a value, with what they say. -/
def options : List (String × (String → Setting)) :=
  [("--query=", .query), ("--vars=", .values), ("--ontology=", .ontology),
    ("--operation=", .operation), ("--name=", .name), ("--format=", ofFormat)]

/-- What an option with a value says. -/
def ofOption? (argument : String) : Option Setting :=
  options.findSome? fun (opening, setting) =>
    (Text.dropStart? opening.toList argument.toList).map fun value =>
      setting (String.ofList value)

/-- What an argument says. -/
def ofArgument (argument : String) : Setting :=
  match ofOption? argument with
  | some setting => setting
  | none =>
    if Text.startsWith "-" argument then .unknownOption argument else .input argument

/-- The warning about an argument that is skipped. -/
def warning? : Setting → Option String
  | .unknownFormat text => some s!"warning: unknown output format '{text}', using tree"
  | .unknownOption text => some s!"warning: unknown option '{text}'"
  | _ => none

end Setting

/-- The options of a command. -/
structure Options where
  inputs : List String
  query? : Option String
  variables? : Option String
  ontology? : Option String
  operation? : Option String
  name? : Option String
  format : OutputFormat
deriving DecidableEq, Inhabited, Repr

namespace Options

/-- The options of a command without arguments. -/
def none : Options := ⟨[], .none, .none, .none, .none, .none, .tree⟩

/-- The options with one more argument. -/
def apply (options : Options) : Setting → Options
  | .input path => { options with inputs := options.inputs ++ [path] }
  | .query path => { options with query? := some path }
  | .values path => { options with variables? := some path }
  | .ontology path => { options with ontology? := some path }
  | .operation name => { options with operation? := some name }
  | .name name => { options with name? := some name }
  | .format format => { options with format := format }
  | .unknownFormat _ => options
  | .unknownOption _ => options

/-- The options that arguments give. -/
def ofArguments (arguments : List String) : Options :=
  (arguments.map Setting.ofArgument).foldl apply none

/-- The warnings about arguments that are skipped. -/
def warnings (arguments : List String) : List String :=
  (arguments.map Setting.ofArgument).filterMap Setting.warning?

/-- Options with others over them. Inputs are put together; of the rest, what the others set
counts. A format is taken for set when it is not the one that is used without being set. -/
def merge (options others : Options) : Options where
  inputs := options.inputs ++ others.inputs
  query? := others.query?.or options.query?
  variables? := others.variables?.or options.variables?
  ontology? := others.ontology?.or options.ontology?
  operation? := others.operation?.or options.operation?
  name? := others.name?.or options.name?
  format := if others.format = .tree then options.format else others.format

/-- The name of an ontology that is not given one. -/
def defaultOntologyName : String := "default"

/-- The name of an ontology that is read off a schema. -/
def ontologyName (options : Options) : String :=
  options.name?.getD defaultOntologyName

end Options

end Command

end TraversalQuery
