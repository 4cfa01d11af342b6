import TraversalQuery.Typing.Literal
import TraversalQuery.Typing.Spread

/-!
# Typing of queries

The problems of the operation that a request selects. All of them are listed, in the order in which
a reader of the document meets them. A fragment is looked into at the first place that spreads it,
so its problems are listed once, however often it is spread.
-/

namespace TraversalQuery

namespace Typing

/-- Checks that remember which fragments they looked into. -/
abbrev Checking := StateM (List String) (List Problem)

/-- The problems that a check finds when no fragment was looked into before. -/
def Checking.unseen (check : Checking) : List Problem :=
  (Id.run (check.run [])).1

/-- The type that a type condition names. -/
def conditionType (scope : Scope) (name path : String) : Except Problem SchemaType :=
  match scope.schema.get? name with
  | none => .error ⟨.unknownCondition name, path⟩
  | some type =>
    if type.kind.isComposite then .ok type else .error ⟨.conditionNotComposite name, path⟩

/-- The type that the selections of an inline fragment are on. -/
def inlineType (scope : Scope) (parent : SchemaType) (path : String) :
    Option String → Except Problem SchemaType
  | none => .ok parent
  | some name => conditionType scope name path

/-- The path of a field of a given response key. -/
def fieldPath (path key : String) : String :=
  if path.isEmpty then key else s!"{path}.{key}"

/-- How the selections of a fragment on a type are checked. -/
abbrev EnterFragment := Fragment → SchemaType → String → Checking

mutual

/-- The problems of one selection on a type. -/
def selectionProblems (scope : Scope) (enter : EnterFragment) (parent : SchemaType)
    (path : String) : Selection → Checking
  | .field field selections braces? => do
    let path := fieldPath path field.responseKey
    let onDirectives := directiveProblems scope path field.directives
    if field.name = "__typename" then
      return onDirectives ++ if braces?.isSome then [⟨.typenameWithSelection, path⟩] else []
    match parent.field? field.name with
    | none => return onDirectives ++ [⟨.unknownField field.name parent.name, path⟩]
    | some declared =>
      let onArguments := argumentProblems scope declared.arguments path field.arguments
      match scope.schema.get? declared.type.namedType with
      | none => return onDirectives ++ onArguments
      | some type =>
        let inside ←
          match braces?, type.kind.isLeaf with
          | some _, true => pure [⟨.needlessSelection field.name declared.type, path⟩]
          | none, false => pure [⟨.missingSelection field.name declared.type, path⟩]
          | some _, false => selectionsProblems scope enter type path selections
          | none, true => pure []
        return onDirectives ++ onArguments ++ inside
  | .spread name directives _ => do
    let onDirectives := directiveProblems scope path directives
    match Fragment.find? scope.fragments name with
    | none => return onDirectives ++ [⟨.unknownFragment name, path⟩]
    | some fragment =>
      if (← get).contains fragment.name then return onDirectives
      modify (fragment.name :: ·)
      match conditionType scope fragment.condition path with
      | .error problem => return onDirectives ++ [problem]
      | .ok type => return onDirectives ++ (← enter fragment type path)
  | .inline condition? directives selections _ _ => do
    let onDirectives := directiveProblems scope path directives
    match inlineType scope parent path condition? with
    | .error problem => return onDirectives ++ [problem]
    | .ok type => return onDirectives ++ (← selectionsProblems scope enter type path selections)

/-- The problems of selections on a type. -/
def selectionsProblems (scope : Scope) (enter : EnterFragment) (parent : SchemaType)
    (path : String) : List Selection → Checking
  | [] => return []
  | selection :: rest => do
    let first ← selectionProblems scope enter parent path selection
    let others ← selectionsProblems scope enter parent path rest
    return first ++ others

end

/-- The problems inside a fragment. Every fragment that is looked into inside another was not looked
into before, so `rounds` need not exceed the number of fragments. -/
def fragmentProblems (scope : Scope) : Nat → EnterFragment
  | 0, _, _, _ => return []
  | rounds + 1, fragment, type, path =>
    selectionsProblems scope (fragmentProblems scope rounds) type path fragment.selections

/-- The problems of variables, given the names of those before. -/
def variableDefinitionProblems (scope : Scope) :
    List String → List VariableDefinition → List Problem
  | _, [] => []
  | seen, definition :: rest =>
    let path := "$" ++ definition.name
    let onName :=
      if seen.contains definition.name then [⟨.duplicateVariable definition.name, path⟩] else []
    let onType :=
      match scope.schema.kindOf? definition.type with
      | none => [⟨.unknownType definition.type.namedType, path⟩]
      | some kind =>
        if kind.isInput then
          match definition.default? with
          | none => []
          | some literal => literalProblems scope definition.type path literal
        else [⟨.notAnInputType definition.name definition.type, path⟩]
    onName ++ onType ++ variableDefinitionProblems scope (definition.name :: seen) rest

/-- The problems of an operation. -/
def operationProblems (schema : Schema) (fragments : List Fragment) (operation : Operation) :
    List Problem :=
  let scope : Scope := ⟨schema, operation.variableDefinitions, fragments⟩
  match schema.rootType? operation.kind with
  | none => [.overall (.unsupportedOperation operation.kind)]
  | some root =>
    variableDefinitionProblems scope [] operation.variableDefinitions ++
      directiveProblems scope "" operation.directives ++
      (selectionsProblems scope (fragmentProblems scope fragments.length) root ""
        operation.selections).unseen

/-- The problems of fragments that repeat the name of one before. -/
def duplicateProblems : List String → List Fragment → List Problem
  | _, [] => []
  | seen, fragment :: rest =>
    if seen.contains fragment.name then
      .overall (.duplicateFragment fragment.name) :: duplicateProblems seen rest
    else duplicateProblems (fragment.name :: seen) rest

/-- A name put into its place among names in ascending order, where it stands once. -/
def insertName (name : String) : List String → List String
  | [] => [name]
  | other :: rest =>
    if name < other then name :: other :: rest
    else if name = other then other :: rest
    else other :: insertName name rest

/-- Names in ascending order, each once. -/
def sortedNames (names : List String) : List String :=
  names.foldr insertName []

/-- The problems of fragments that spread themselves, in the order of their names. -/
def cycleProblems (fragments : List Fragment) : List Problem :=
  (sortedNames (fragments.map (·.name))).filterMap fun name =>
    match Fragment.find? fragments name with
    | none => none
    | some fragment =>
      if Fragment.spreadsItself fragments fragment then
        some (.overall (.fragmentSpreadsItself name))
      else none

end Typing

namespace Document

/-- The operation of a name, or the only operation. -/
def selectOperation (document : Document) : Option String → Except Problem Operation
  | some name =>
    match document.operations.find? (·.name? == some name) with
    | none => .error (.overall (.unknownOperation name))
    | some operation => .ok operation
  | none =>
    match document.operations with
    | [] => .error (.overall .noOperation)
    | [operation] => .ok operation
    | _ => .error (.overall .severalOperations)

/-- All problems of the operation that a request selects. -/
def problems (schema : Schema) (document : Document) (operation? : Option String) :
    List Problem :=
  Typing.duplicateProblems [] document.fragments ++ Typing.cycleProblems document.fragments ++
    match document.selectOperation operation? with
    | .error problem => [problem]
    | .ok operation => Typing.operationProblems schema document.fragments operation

end Document

end TraversalQuery
