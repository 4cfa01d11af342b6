import TraversalQuery.Document.Basic

/-!
# The types of filters

Fields that can be filtered take an argument of type `WhereClause`. The types behind it are part of
every schema that is compiled for queries with filters, before the types of its sources. They are
declared by a fixed text. The definitions are what this text is read as, without places.
-/

namespace TraversalQuery

namespace Filter

/-- The text that declares the types of filters, as if it were the source before all others. -/
def prelude : String :=
  "\n\"Combines the constraints of a where clause.\"\n" ++
    "enum WhereOperator \x7b\n    AND\n    OR\n\x7d\n\n" ++
    "\"A single `operand operator expression` test on an entity property.\"\n" ++
    "input Constraint \x7b\n    operand: String!\n    operator: String!\n" ++
    "    expression: String\n\x7d\n\n" ++
    "input WhereClause \x7b\n    operator: WhereOperator = AND\n" ++
    "    constraints: [Constraint!]!\n\x7d\n"

/-- A definition without its place in the text. -/
def definition (name : String) (content : TypeContent) : TypeDefinition :=
  ⟨name, content, [], false, .zero⟩

/-- A field of an input type without its place in the text. -/
def inputField (name : String) (type : TypeRef) (default? : Option Literal) : InputDefinition :=
  ⟨name, type, default?, [], .zero⟩

/-- How the constraints of a clause are combined. -/
def operatorType : TypeDefinition :=
  definition "WhereOperator" (.enum ["AND", "OR"])

/-- A test of one property of an entity. -/
def constraintType : TypeDefinition :=
  definition "Constraint" <| .input
    [inputField "operand" (.nonNull (.named "String")) none,
      inputField "operator" (.nonNull (.named "String")) none,
      inputField "expression" (.named "String") none]

/-- A filter: constraints and how they are combined. -/
def clauseType : TypeDefinition :=
  definition "WhereClause" <| .input
    [inputField "operator" (.named "WhereOperator") (some (.enumValue "AND")),
      inputField "constraints" (.nonNull (.list (.nonNull (.named "Constraint")))) none]

/-- The types of filters, in order. -/
def types : List TypeDefinition :=
  [operatorType, constraintType, clauseType]

/-- The names of the types of filters. -/
def typeNames : List String :=
  types.map (·.name)

/-- Whether a name is that of a type of filters. -/
def isFilterType (name : String) : Bool :=
  typeNames.contains name

end Filter

end TraversalQuery
