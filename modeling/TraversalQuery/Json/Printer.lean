import TraversalQuery.Json.Basic

/-!
# Writing JSON

The compact form has no blanks at all. The indented form puts every item and member on a line of
its own, two blanks further in than the bracket around it; empty brackets stay closed up.
-/

namespace TraversalQuery

namespace Json

mutual

/-- A value in compact form. -/
def compact : Json → String
  | .null => "null"
  | .bool value => if value then "true" else "false"
  | .int value => toString value
  | .float value => value.dataText
  | .string text => Text.Quoted.data text
  | .array items => "[" ++ ",".intercalate (compactItems items) ++ "]"
  | .object members => "\x7b" ++ ",".intercalate (compactMembers members) ++ "\x7d"

/-- The items of an array in compact form. -/
def compactItems : List Json → List String
  | [] => []
  | item :: rest => compact item :: compactItems rest

/-- The members of an object in compact form. -/
def compactMembers : List (String × Json) → List String
  | [] => []
  | (name, value) :: rest =>
    (Text.Quoted.data name ++ ":" ++ compact value) :: compactMembers rest

end

/-- A line break followed by the blanks of an indentation. -/
def newline (depth : Nat) : String :=
  "\n" ++ String.ofList (List.replicate (2 * depth) ' ')

/-- Parts on lines of their own between two brackets. -/
def bracketed (opening closing : String) (depth : Nat) (parts : List String) : String :=
  match parts with
  | [] => opening ++ closing
  | _ =>
    opening ++ newline (depth + 1) ++ ("," ++ newline (depth + 1)).intercalate parts ++
      newline depth ++ closing

mutual

/-- A value in indented form, at the given depth of brackets. -/
def indented (depth : Nat) : Json → String
  | .array items => bracketed "[" "]" depth (indentedItems (depth + 1) items)
  | .object members => bracketed "\x7b" "\x7d" depth (indentedMembers (depth + 1) members)
  | .null => "null"
  | .bool value => if value then "true" else "false"
  | .int value => toString value
  | .float value => value.dataText
  | .string text => Text.Quoted.data text

/-- The items of an array in indented form. -/
def indentedItems (depth : Nat) : List Json → List String
  | [] => []
  | item :: rest => indented depth item :: indentedItems depth rest

/-- The members of an object in indented form. -/
def indentedMembers (depth : Nat) : List (String × Json) → List String
  | [] => []
  | (name, value) :: rest =>
    (Text.Quoted.data name ++ ": " ++ indented depth value) :: indentedMembers depth rest

end

/-- A value on lines of its own. -/
def pretty (value : Json) : String :=
  indented 0 value

end Json

end TraversalQuery
