import TraversalQuery.Document.Basic

/-!
# Problems of queries

What can be wrong with a query that reads well: each problem has a cause and a path, which leads to
the field, the argument or the variable that is to blame.
-/

namespace TraversalQuery

/-- What is wrong with a query. -/
inductive ProblemCause where
  | duplicateFragment (name : String)
  | fragmentSpreadsItself (name : String)
  | unknownOperation (name : String)
  | noOperation
  | severalOperations
  | unsupportedOperation (kind : OperationKind)
  | duplicateVariable (name : String)
  | unknownType (name : String)
  | notAnInputType (variableName : String) (type : TypeRef)
  | unknownFragment (name : String)
  | conditionNotComposite (name : String)
  | unknownCondition (name : String)
  | typenameWithSelection
  | unknownField (field type : String)
  | needlessSelection (field : String) (type : TypeRef)
  | missingSelection (field : String) (type : TypeRef)
  | duplicateArgument (name : String)
  | unknownArgument (name : String)
  | missingArgument (name : String)
  | nullNotAllowed (type : TypeRef)
  | unexpectedLiteral (type found : String)
  | duplicateInputField (name : String)
  | unknownInputField (name type : String)
  | missingInputField (name type : String)
  | undefinedVariable (name : String)
  | variableMismatch (name : String) (given expected : TypeRef)
  | unexpectedValue (type : TypeRef) (found : String)
  | missingVariable (name : String)
deriving DecidableEq, Repr

/-- A cause in words. -/
def ProblemCause.message : ProblemCause → String
  | .duplicateFragment name => s!"fragment `{name}` is defined more than once"
  | .fragmentSpreadsItself name => s!"fragment `{name}` spreads itself"
  | .unknownOperation name => s!"unknown operation `{name}`"
  | .noOperation => "document contains no operation"
  | .severalOperations =>
    "document contains several operations; an operation name is required"
  | .unsupportedOperation kind => s!"schema does not support {kind.keyword} operations"
  | .duplicateVariable name => s!"variable `${name}` is defined more than once"
  | .unknownType name => s!"unknown type `{name}`"
  | .notAnInputType variableName type =>
    s!"variable `${variableName}` must have an input type, found `{type.text}`"
  | .unknownFragment name => s!"unknown fragment `{name}`"
  | .conditionNotComposite name =>
    s!"type condition `{name}` is not an object or interface type"
  | .unknownCondition name => s!"unknown type `{name}` in type condition"
  | .typenameWithSelection => "`__typename` cannot have a selection"
  | .unknownField field type => s!"unknown field `{field}` on type `{type}`"
  | .needlessSelection field type =>
    s!"field `{field}` of type `{type.text}` must not have a selection"
  | .missingSelection field type =>
    s!"field `{field}` of type `{type.text}` must have a selection of subfields"
  | .duplicateArgument name => s!"argument `{name}` is given more than once"
  | .unknownArgument name => s!"unknown argument `{name}`"
  | .missingArgument name => s!"missing required argument `{name}`"
  | .nullNotAllowed type => s!"expected `{type.text}`, found null"
  | .unexpectedLiteral type found => s!"expected `{type}`, found `{found}`"
  | .duplicateInputField name => s!"input field `{name}` is given more than once"
  | .unknownInputField name type => s!"unknown field `{name}` in input type `{type}`"
  | .missingInputField name type => s!"missing required field `{name}` in `{type}`"
  | .undefinedVariable name => s!"undefined variable `${name}`"
  | .variableMismatch name given expected =>
    s!"variable `${name}` of type `{given.text}` cannot be used where `{expected.text}` is expected"
  | .unexpectedValue type found =>
    s!"expected a value of type `{type.text}`, found `{found}`"
  | .missingVariable name => s!"missing value for required variable `${name}`"

/-- A cause and the path to what it is about. -/
structure Problem where
  cause : ProblemCause
  path : String
deriving DecidableEq, Repr

namespace Problem

/-- A problem in words, without its path. -/
def message (problem : Problem) : String :=
  problem.cause.message

/-- A problem in words, with its path. -/
def text (problem : Problem) : String :=
  if problem.path.isEmpty then problem.message else s!"{problem.message} (at {problem.path})"

/-- A problem of a query as a whole. -/
def overall (cause : ProblemCause) : Problem := ⟨cause, ""⟩

/-- Several problems in one line. -/
def joined (problems : List Problem) : String :=
  "; ".intercalate (problems.map text)

end Problem

end TraversalQuery
