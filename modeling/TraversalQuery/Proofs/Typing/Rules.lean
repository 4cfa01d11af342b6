import TraversalQuery.Proofs.Document.Spreads

/-!
# The rules of typing

When a query is well typed, said without an order in which it is checked and without messages. The
rules follow the syntax: a literal is admitted if its parts are, and a selection is well typed if
what is inside it is. A fragment is looked into wherever it is spread, and nothing is remembered of
the places before.
-/

namespace TraversalQuery

/-- A type whose values can stand wherever those of another one can: it forbids `null` wherever the
other one does. -/
inductive TypeRef.Refines : TypeRef → TypeRef → Prop
  | named (name : String) : Refines (.named name) (.named name)
  | list {given expected : TypeRef} (items : Refines given expected) :
      Refines (.list given) (.list expected)
  | marked {given expected : TypeRef} (inner : Refines given expected) :
      Refines (.nonNull given) (.nonNull expected)
  | stricter {given expected : TypeRef} (inner : Refines given expected) :
      Refines (.nonNull given) expected

/-- A variable that can stand where a type is expected. If it has a default then its type may admit
`null` although the expected one does not. -/
inductive VariableDefinition.Fits (definition : VariableDefinition) : TypeRef → Prop
  | refines {expected : TypeRef} (refines : definition.type.Refines expected) :
      Fits definition expected
  | defaulted {expected : TypeRef} (defaults : definition.default?.isSome = true)
      (nullable : definition.type.isNonNull = false) (refines : definition.type.Refines expected) :
      Fits definition (.nonNull expected)

namespace Literal

/-- A literal that says itself what it is: neither a variable nor `null`. -/
def IsValue : Literal → Prop
  | .reference _ => False
  | .null => False
  | _ => True

/-- A literal that is written as a list. -/
def IsList : Literal → Prop
  | .list _ => True
  | _ => False

end Literal

namespace Typing

namespace Scope

/-- **Literals where a type is expected.** A literal that is no list can stand for a list of one
item. The fields of an object are those of an input type, each given at most once, and at least if
it is required. -/
inductive Admits (scope : Scope) : TypeRef → Literal → Prop
  | reference {expected : TypeRef} {name : String} {definition : VariableDefinition}
      (declared : scope.variableDefinitions.find? (·.name == name) = some definition)
      (fits : definition.Fits expected) : Admits scope expected (.reference name)
  | null {expected : TypeRef} (nullable : expected.isNonNull = false) : Admits scope expected .null
  | nonNull {inner : TypeRef} {literal : Literal} (isValue : literal.IsValue)
      (admitted : Admits scope inner literal) : Admits scope (.nonNull inner) literal
  | list {item : TypeRef} {items : List Literal}
      (each : ∀ literal ∈ items, Admits scope item literal) :
      Admits scope (.list item) (.list items)
  | single {item : TypeRef} {literal : Literal} (isValue : literal.IsValue)
      (isSingle : ¬ literal.IsList) (admitted : Admits scope item literal) :
      Admits scope (.list item) literal
  | scalar {name : String} {type : SchemaType} {literal : Literal} (isValue : literal.IsValue)
      (isType : scope.schema.get? name = some type) (isScalar : type.body = .scalar)
      (accepted : scalarAccepts name literal = true) : Admits scope (.named name) literal
  | enumValue {name value : String} {type : SchemaType} {values : List String}
      (isType : scope.schema.get? name = some type) (isEnum : type.body = .enum values)
      (member : value ∈ values) : Admits scope (.named name) (.enumValue value)
  | object {name : String} {type : SchemaType} {declared : List InputValue}
      {fields : List (String × Literal)} (isType : scope.schema.get? name = some type)
      (isInput : type.body = .input declared) (distinct : (fields.map Prod.fst).Nodup)
      (known : ∀ field ∈ fields, (declared.find? (·.name == field.1)).isSome = true)
      (each : ∀ field ∈ fields, ∀ input, declared.find? (·.name == field.1) = some input →
        Admits scope input.type field.2)
      (required : ∀ input ∈ declared, input.isRequired = true → input.name ∈ fields.map Prod.fst) :
      Admits scope (.named name) (.object fields)

/-- Arguments where inputs are declared: each is given at most once, and at least if it is
required. -/
structure AdmitsArguments (scope : Scope) (declared : List InputValue)
    (arguments : List Argument) : Prop where
  distinct : (arguments.map (·.name)).Nodup
  each : ∀ argument ∈ arguments, ∃ input, declared.find? (·.name == argument.name) = some input ∧
    scope.Admits input.type argument.value
  required : ∀ input ∈ declared, input.isRequired = true → input.name ∈ arguments.map (·.name)

/-- Directives of which those that include and skip have a condition. -/
def AdmitsDirectives (scope : Scope) (directives : List Directive) : Prop :=
  ∀ directive ∈ directives, directive.name = "skip" ∨ directive.name = "include" →
    scope.AdmitsArguments [conditionArgument] directive.arguments

/-- A type that a fragment can be on. -/
def Condition (scope : Scope) (name : String) (type : SchemaType) : Prop :=
  scope.schema.get? name = some type ∧ type.kind.isComposite = true

/-- Variables with names of their own and types that variables can have, which admit their
defaults. -/
structure AdmitsVariables (scope : Scope) (definitions : List VariableDefinition) : Prop where
  distinct : (definitions.map (·.name)).Nodup
  isInput : ∀ definition ∈ definitions, ∃ type,
    scope.schema.get? definition.type.namedType = some type ∧ type.kind.isInput = true
  defaults : ∀ definition ∈ definitions, ∀ literal ∈ definition.default?,
    scope.Admits definition.type literal

end Scope

end Typing

open Typing

/-- **Selections on a type.** Something is selected inside a field exactly if its type has fields. A
spread is well typed if the selections of its fragment are, on the type of the fragment. -/
inductive Selection.WellTyped (scope : Scope) : SchemaType → Selection → Prop
  | typename {parent : SchemaType} {field : Field} {selections : List Selection}
      (named : field.name = "__typename") (directives : scope.AdmitsDirectives field.directives) :
      WellTyped scope parent (.field field selections none)
  | leaf {parent type : SchemaType} {field : Field} {declared : OutputField}
      {selections : List Selection} (proper : field.name ≠ "__typename")
      (directives : scope.AdmitsDirectives field.directives)
      (isField : parent.field? field.name = some declared)
      (arguments : scope.AdmitsArguments declared.arguments field.arguments)
      (isType : scope.schema.get? declared.type.namedType = some type)
      (isLeaf : type.kind.isLeaf = true) : WellTyped scope parent (.field field selections none)
  | inside {parent type : SchemaType} {field : Field} {declared : OutputField}
      {selections : List Selection} {braces : Span} (proper : field.name ≠ "__typename")
      (directives : scope.AdmitsDirectives field.directives)
      (isField : parent.field? field.name = some declared)
      (arguments : scope.AdmitsArguments declared.arguments field.arguments)
      (isType : scope.schema.get? declared.type.namedType = some type)
      (isComposite : type.kind.isLeaf = false)
      (each : ∀ selection ∈ selections, WellTyped scope type selection) :
      WellTyped scope parent (.field field selections (some braces))
  | spread {parent type : SchemaType} {name : String} {directives : List Directive} {span : Span}
      {fragment : Fragment} (conditions : scope.AdmitsDirectives directives)
      (isFragment : Fragment.find? scope.fragments name = some fragment)
      (condition : scope.Condition fragment.condition type)
      (each : ∀ selection ∈ fragment.selections, WellTyped scope type selection) :
      WellTyped scope parent (.spread name directives span)
  | inline {parent : SchemaType} {directives : List Directive} {selections : List Selection}
      {braces span : Span} (conditions : scope.AdmitsDirectives directives)
      (each : ∀ selection ∈ selections, WellTyped scope parent selection) :
      WellTyped scope parent (.inline none directives selections braces span)
  | narrowed {parent type : SchemaType} {name : String} {directives : List Directive}
      {selections : List Selection} {braces span : Span}
      (conditions : scope.AdmitsDirectives directives) (condition : scope.Condition name type)
      (each : ∀ selection ∈ selections, WellTyped scope type selection) :
      WellTyped scope parent (.inline (some name) directives selections braces span)

/-- An operation that a schema has a root type for. -/
structure Operation.WellTyped (schema : Schema) (fragments : List Fragment)
    (operation : Operation) : Prop where
  definitions : Scope.AdmitsVariables ⟨schema, operation.variableDefinitions, fragments⟩
    operation.variableDefinitions
  directives : Scope.AdmitsDirectives ⟨schema, operation.variableDefinitions, fragments⟩
    operation.directives
  selections : ∃ root, schema.rootType? operation.kind = some root ∧
    ∀ selection ∈ operation.selections,
      selection.WellTyped ⟨schema, operation.variableDefinitions, fragments⟩ root

/-- A document with fragments of distinct names, none of which leads to itself, and with a well
typed operation that a request selects. -/
structure Document.WellTyped (schema : Schema) (document : Document) (operation? : Option String) :
    Prop where
  distinct : (document.fragments.map (·.name)).Nodup
  acyclic : Fragment.Acyclic document.fragments
  operation : ∃ operation, document.selectOperation operation? = .ok operation ∧
    operation.WellTyped schema document.fragments

end TraversalQuery
