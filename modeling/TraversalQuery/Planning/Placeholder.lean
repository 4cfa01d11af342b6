import TraversalQuery.Response.Walk

/-!
# Placeholders

There is no data behind a query that is planned. Fields with values answer with something of the
right shape: enums with their first value, scalars with a fixed one or one made from the name of the
field. A custom scalar has no shape to match and answers nothing.
-/

namespace TraversalQuery

namespace SchemaType

/-- A value of a scalar for a field. -/
def scalarPlaceholder? (scalar field : String) : Option Json :=
  match scalar with
  | "String" => some (.string field)
  | "ID" => some (.string ("id_" ++ field))
  | "Boolean" => some (.bool true)
  | "Int" => some (.int 1)
  | "Long" => some (.int 1)
  | "Float" => some (.float (.ofNat 1))
  | _ => none

/-- A value of a type for a field, when the type has one. -/
def placeholder? (type : SchemaType) (field : String) : Option Json :=
  match type.kind with
  | .enum => type.enumValues.head?.map .string
  | .scalar => scalarPlaceholder? type.name field
  | _ => none

end SchemaType

namespace Answer

/-- The answer for a value that may be missing. -/
def ofValue? : Option Json → Answer
  | none => .null
  | some value => .leaf value

end Answer

end TraversalQuery
