import TraversalQuery.Json.Basic

/-!
# Mismatches

What is wrong with a JSON value that is not of the kind that was asked for. A mismatch says nothing
about a text: the same one can be found in a value that was never written down.
-/

namespace TraversalQuery

namespace Json

/-- Why a value is not of the kind that was asked for. -/
inductive Mismatch where
  | invalidType (found expected : String)
  | severalNames
  | missingField (name : String)
  | duplicateField (name : String)
  | unknownName (name : String) (known : List String)
  | tooFewItems (present : Nat) (record : String) (fields : Nat)
  | tooManyItems (present : Nat)
deriving DecidableEq, Repr

/-- The names to choose from, in words. -/
def oneOf : List String → String
  | [only] => s!"`{only}`"
  | [first, second] => s!"`{first}` or `{second}`"
  | names => "one of " ++ ", ".intercalate (names.map fun name => s!"`{name}`")

/-- A mismatch in words. -/
def Mismatch.message : Mismatch → String
  | .invalidType found expected => s!"invalid type: {found}, expected {expected}"
  | .severalNames => "invalid value: map, expected map with a single key"
  | .missingField name => s!"missing field `{name}`"
  | .duplicateField name => s!"duplicate field `{name}`"
  | .unknownName name known => s!"unknown variant `{name}`, expected {oneOf known}"
  | .tooFewItems present record fields =>
    s!"invalid length {present}, expected struct {record} with {fields} elements"
  | .tooManyItems present =>
    s!"invalid length {present}, expected fewer elements in array"

/-- What was found, in the words of a message. -/
def foundText : Json → String
  | .null => "null"
  | .bool value => if value then "boolean `true`" else "boolean `false`"
  | .int value => s!"integer `{value}`"
  | .float value => s!"floating point `{value.dataText}`"
  | .string text => "string " ++ Text.Quoted.shown text
  | .array _ => "sequence"
  | .object _ => "map"

/-- The mismatch of a value that is not what was expected. -/
def unexpected (expected : String) (value : Json) : Mismatch :=
  .invalidType (foundText value) expected

end Json

end TraversalQuery
