import TraversalQuery.Schema.Basic
import TraversalQuery.Typing.Problem

/-!
# Typing of literals

Whether a literal can stand where a type is expected. A literal that is no list can stand for a list
of one item, so its own type is the one named inside all lists. A variable is not looked into: its
declared type has to fit the expected one.
-/

namespace TraversalQuery

namespace Typing

/-- What a query is checked against. -/
structure Scope where
  schema : Schema
  variableDefinitions : List VariableDefinition
  fragments : List Fragment

/-- Whether a variable of the first type can stand where the second is expected. A default, which
stands in for a missing value, makes up for a type that admits `null`. -/
def variableFits (variableType expected : TypeRef) (hasDefault : Bool) : Bool :=
  match variableType, expected with
  | .nonNull given, .nonNull expected => variableFits given expected false
  | .nonNull given, expected => variableFits given expected false
  | given, .nonNull expected => hasDefault && variableFits given expected false
  | .list given, .list expected => variableFits given expected false
  | .named given, .named expected => given == expected
  | _, _ => false
termination_by sizeOf variableType + sizeOf expected

/-- Whether an integer fits in thirty-two bits with a sign. -/
def fitsInt (value : Int) : Bool :=
  -(Nat.pow 2 31 : Int) ≤ value && value ≤ Nat.pow 2 31 - 1

/-- Whether a scalar accepts a literal. Scalars that are not built in accept every literal. -/
def scalarAccepts (scalar : String) (literal : Literal) : Bool :=
  match scalar, literal with
  | "Int", .int value => fitsInt value
  | "Int", _ => false
  | "Float", .int _ => true
  | "Float", .float _ => true
  | "Float", _ => false
  | "String", .string _ => true
  | "String", _ => false
  | "Boolean", .bool _ => true
  | "Boolean", _ => false
  | "ID", .string _ => true
  | "ID", .int _ => true
  | "ID", _ => false
  | _, _ => true

/-- Whether a type accepts a literal as a whole. Input types do not: their fields are looked at one
by one. -/
def accepts (type : SchemaType) (literal : Literal) : Bool :=
  match type.body, literal with
  | .scalar, literal => scalarAccepts type.name literal
  | .enum values, .enumValue value => values.contains value
  | _, _ => false

/-- The problem of a literal that a named type does not accept. A name without a type was reported
with the schema. -/
def wholeProblems (scope : Scope) (name path : String) (literal : Literal) : List Problem :=
  match scope.schema.get? name with
  | none => []
  | some type =>
    if accepts type literal then [] else [⟨.unexpectedLiteral name literal.text, path⟩]

/-- The problem of a variable where a type is expected. -/
def variableProblems (scope : Scope) (name : String) (type : TypeRef) (path : String) :
    List Problem :=
  match scope.variableDefinitions.find? (·.name == name) with
  | none => [⟨.undefinedVariable name, path⟩]
  | some found =>
    if variableFits found.type type found.default?.isSome then []
    else [⟨.variableMismatch name found.type type, path⟩]

/-- The problems of required fields that are not among the names given. -/
def missingFields (type : String) (declared : List InputValue) (given : List String)
    (path : String) : List Problem :=
  (declared.filter fun input => input.isRequired && !given.contains input.name).map fun input =>
    ⟨.missingInputField input.name type, path⟩

mutual

/-- The problems of a literal where a type is expected. -/
def literalProblems (scope : Scope) (type : TypeRef) (path : String) : Literal → List Problem
  | .reference name => variableProblems scope name type path
  | .null => if type.isNonNull then [⟨.nullNotAllowed type, path⟩] else []
  | .list items =>
    match type.nullable with
    | .list item => itemProblems scope item path 0 items
    | _ => wholeProblems scope type.namedType path (.list items)
  | .object fields =>
    match scope.schema.get? type.namedType with
    | some ⟨name, .input declared, _⟩ =>
      fieldProblems scope name declared path [] fields ++
        missingFields name declared (fields.map Prod.fst) path
    | _ => wholeProblems scope type.namedType path (.object fields)
  | .int value => wholeProblems scope type.namedType path (.int value)
  | .float value => wholeProblems scope type.namedType path (.float value)
  | .string text => wholeProblems scope type.namedType path (.string text)
  | .bool value => wholeProblems scope type.namedType path (.bool value)
  | .enumValue name => wholeProblems scope type.namedType path (.enumValue name)

/-- The problems of the items of a list, of which the first has the number `index`. -/
def itemProblems (scope : Scope) (type : TypeRef) (path : String) (index : Nat) :
    List Literal → List Problem
  | [] => []
  | item :: rest =>
    literalProblems scope type s!"{path}[{index}]" item ++
      itemProblems scope type path (index + 1) rest

/-- The problems of the fields of an object, given the names of those before. -/
def fieldProblems (scope : Scope) (type : String) (declared : List InputValue) (path : String)
    (seen : List String) : List (String × Literal) → List Problem
  | [] => []
  | (name, value) :: rest =>
    if seen.contains name then
      ⟨.duplicateInputField name, path⟩ :: fieldProblems scope type declared path seen rest
    else
      (match declared.find? (·.name == name) with
        | none => [⟨.unknownInputField name type, path⟩]
        | some input => literalProblems scope input.type s!"{path}.{name}" value) ++
        fieldProblems scope type declared path (name :: seen) rest

end

/-- The problems of arguments, given the names of those before. -/
def givenProblems (scope : Scope) (declared : List InputValue) (path : String) :
    List String → List Argument → List Problem
  | _, [] => []
  | seen, argument :: rest =>
    if seen.contains argument.name then
      ⟨.duplicateArgument argument.name, path⟩ :: givenProblems scope declared path seen rest
    else
      (match declared.find? (·.name == argument.name) with
        | none => [⟨.unknownArgument argument.name, path⟩]
        | some input =>
          literalProblems scope input.type s!"{path}({argument.name})" argument.value) ++
        givenProblems scope declared path (argument.name :: seen) rest

/-- The problems of the arguments of a field or directive. -/
def argumentProblems (scope : Scope) (declared : List InputValue) (path : String)
    (arguments : List Argument) : List Problem :=
  let given := arguments.map (·.name)
  givenProblems scope declared path [] arguments ++
    (declared.filter fun input => input.isRequired && !given.contains input.name).map fun input =>
      ⟨.missingArgument input.name, path⟩

/-- The argument of the directives that include and skip selections. -/
def conditionArgument : InputValue :=
  ⟨"if", .nonNull (.named "Boolean"), none⟩

/-- The problems of directives. Directives other than those that include and skip are not
checked. -/
def directiveProblems (scope : Scope) (path : String) (directives : List Directive) :
    List Problem :=
  (directives.filter fun directive =>
    directive.name == "skip" || directive.name == "include").flatMap fun directive =>
      argumentProblems scope [conditionArgument] s!"{path}@{directive.name}" directive.arguments

end Typing

end TraversalQuery
