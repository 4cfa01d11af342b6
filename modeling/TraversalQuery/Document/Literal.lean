import TraversalQuery.Number.Format
import TraversalQuery.Text.Quoted

/-!
# Literals and type references

The two small languages inside a document: the values that arguments and defaults are written with,
and the types that fields, arguments and variables refer to.
-/

namespace TraversalQuery

/-- A value as it is written in a document. -/
inductive Literal where
  | reference (name : String)
  | int (value : Int)
  | float (value : Binary64)
  | string (text : String)
  | bool (value : Bool)
  | null
  | enumValue (name : String)
  | list (items : List Literal)
  | object (fields : List (String × Literal))
deriving Inhabited

namespace Literal

mutual

/-- A literal as messages show it. -/
def text : Literal → String
  | .reference name => "$" ++ name
  | .int value => toString value
  | .float value => value.messageText
  | .string value => Text.Quoted.shown value
  | .bool value => if value then "true" else "false"
  | .null => "null"
  | .enumValue name => name
  | .list items => "[" ++ ", ".intercalate (itemTexts items) ++ "]"
  | .object fields => "\x7b" ++ ", ".intercalate (fieldTexts fields) ++ "\x7d"

/-- The items of a list as messages show them. -/
def itemTexts : List Literal → List String
  | [] => []
  | item :: rest => text item :: itemTexts rest

/-- The fields of an object as messages show them. -/
def fieldTexts : List (String × Literal) → List String
  | [] => []
  | (name, value) :: rest => (name ++ ": " ++ text value) :: fieldTexts rest

end

/-- Whether the literal is `null`. -/
def isNull : Literal → Bool
  | .null => true
  | _ => false

end Literal

/-- A reference to a type: a name, possibly inside lists and marks that forbid `null`. -/
inductive TypeRef where
  | named (name : String)
  | list (item : TypeRef)
  | nonNull (inner : TypeRef)
deriving DecidableEq, Inhabited, Repr

namespace TypeRef

/-- The name inside all lists and marks. -/
def namedType : TypeRef → String
  | .named name => name
  | .list item => item.namedType
  | .nonNull inner => inner.namedType

/-- Whether the outermost type that admits `null` is a list. -/
def isList : TypeRef → Bool
  | .named _ => false
  | .list _ => true
  | .nonNull inner => inner.isList

/-- Whether `null` is forbidden. -/
def isNonNull : TypeRef → Bool
  | .nonNull _ => true
  | _ => false

/-- The type without the marks around it that forbid `null`. -/
def nullable : TypeRef → TypeRef
  | .nonNull inner => inner.nullable
  | type => type

/-- The type of the items of a list type; a type that is no list stands for itself. -/
def itemType : TypeRef → TypeRef
  | .nonNull inner => inner.itemType
  | .list item => item
  | .named name => .named name

/-- A type reference as it is written. -/
def text : TypeRef → String
  | .named name => name
  | .list item => "[" ++ item.text ++ "]"
  | .nonNull inner => inner.text ++ "!"

end TypeRef

end TraversalQuery
