import TraversalQuery.Document.Literal
import TraversalQuery.Source.Span

/-!
# Documents

The syntax tree of a document. One tree serves schema documents and executable documents; who uses a
document decides which definitions it admits.

A selection holds the selections inside it directly, together with the span of the braces around
them. A field without braces has no selections and no such span.
-/

namespace TraversalQuery

/-- A named value given to a field or a directive. -/
structure Argument where
  name : String
  value : Literal
  span : Span
deriving Inhabited

/-- A directive with its arguments. -/
structure Directive where
  name : String
  arguments : List Argument
  span : Span
deriving Inhabited

namespace Directive

/-- The value of the first argument of a name. -/
def argument? (directive : Directive) (name : String) : Option Literal :=
  (directive.arguments.find? (·.name == name)).map (·.value)

end Directive

/-- A field as it is selected, without what is selected inside it. -/
structure Field where
  alias? : Option String
  name : String
  arguments : List Argument
  directives : List Directive
  span : Span
deriving Inhabited

namespace Field

/-- The name that the field has in the response. -/
def responseKey (field : Field) : String :=
  field.alias?.getD field.name

/-- The value of the first argument of a name. -/
def argument? (field : Field) (name : String) : Option Literal :=
  (field.arguments.find? (·.name == name)).map (·.value)

end Field

/-- One item of a selection set. -/
inductive Selection where
  | field (field : Field) (selections : List Selection) (braces? : Option Span)
  | spread (name : String) (directives : List Directive) (span : Span)
  | inline (condition? : Option String) (directives : List Directive)
      (selections : List Selection) (braces span : Span)
deriving Inhabited

/-- The three kinds of operation. -/
inductive OperationKind where
  | query
  | mutation
  | subscription
deriving DecidableEq, Inhabited, Repr

namespace OperationKind

/-- The keyword of an operation kind. -/
def keyword : OperationKind → String
  | .query => "query"
  | .mutation => "mutation"
  | .subscription => "subscription"

/-- The operation kind of a keyword. -/
def ofKeyword? : String → Option OperationKind
  | "query" => some .query
  | "mutation" => some .mutation
  | "subscription" => some .subscription
  | _ => none

/-- The name of the root type that serves an operation kind when the schema names none. -/
def conventionalRoot : OperationKind → String
  | .query => "Query"
  | .mutation => "Mutation"
  | .subscription => "Subscription"

end OperationKind

/-- A variable of an operation. -/
structure VariableDefinition where
  name : String
  type : TypeRef
  default? : Option Literal
  span : Span
deriving Inhabited

/-- An operation: what a request can run. -/
structure Operation where
  kind : OperationKind
  name? : Option String
  variableDefinitions : List VariableDefinition
  directives : List Directive
  selections : List Selection
  braces : Span
  span : Span
deriving Inhabited

/-- Selections on a type, under a name. -/
structure Fragment where
  name : String
  condition : String
  directives : List Directive
  selections : List Selection
  braces : Span
  span : Span
deriving Inhabited

/-- The root types of a schema. -/
structure SchemaDefinition where
  roots : List (OperationKind × String)
  span : Span
deriving Inhabited

/-- An argument of a field or of a directive, or a field of an input type. -/
structure InputDefinition where
  name : String
  type : TypeRef
  default? : Option Literal
  directives : List Directive
  span : Span
deriving Inhabited

/-- An output field of an object or interface type. -/
structure FieldDefinition where
  name : String
  arguments : List InputDefinition
  type : TypeRef
  directives : List Directive
  span : Span
deriving Inhabited

/-- What the definition of a type consists of, by kind of type. -/
inductive TypeContent where
  | scalar
  | object (interfaces : List String) (fields : List FieldDefinition)
  | interface (interfaces : List String) (fields : List FieldDefinition)
  | enum (values : List String)
  | input (fields : List InputDefinition)
deriving Inhabited

/-- A type, or more of a type that is defined elsewhere. -/
structure TypeDefinition where
  name : String
  content : TypeContent
  directives : List Directive
  isExtension : Bool
  span : Span
deriving Inhabited

/-- The declaration of a directive. -/
structure DirectiveDefinition where
  name : String
  arguments : List InputDefinition
  isRepeatable : Bool
  locations : List String
  span : Span
deriving Inhabited

/-- A definition at the top of a document. -/
inductive Definition where
  | operation (operation : Operation)
  | fragment (fragment : Fragment)
  | schema (schema : SchemaDefinition)
  | type (type : TypeDefinition)
  | directive (directive : DirectiveDefinition)
deriving Inhabited

namespace Definition

/-- Whether the definition belongs to an executable document. -/
def isExecutable : Definition → Bool
  | .operation _ => true
  | .fragment _ => true
  | _ => false

/-- The place of a definition, from its keyword on. -/
def span : Definition → Span
  | .operation part => part.span
  | .fragment part => part.span
  | .schema part => part.span
  | .type part => part.span
  | .directive part => part.span

end Definition

/-- A document: its definitions in order. -/
structure Document where
  definitions : List Definition
deriving Inhabited

namespace Document

/-- The operations of a document. -/
def operations (document : Document) : List Operation :=
  document.definitions.filterMap fun
    | .operation operation => some operation
    | _ => none

/-- The fragments of a document. -/
def fragments (document : Document) : List Fragment :=
  document.definitions.filterMap fun
    | .fragment fragment => some fragment
    | _ => none

end Document

/-- The first directive of a name. -/
def findDirective? (directives : List Directive) (name : String) : Option Directive :=
  directives.find? (·.name == name)

end TraversalQuery
