import TraversalQuery.Json.Expected

/-!
# Decoding JSON

A decoder knows one kind of value in two ways: how to decode a JSON value that is at hand, and how
to read such a value off a text. Reading can say where a text goes wrong, decoding only what is
wrong.

A record is decoded from an object by its names or from an array by its order. Members are looked
at in the order in which they stand, and the first of them that does not decode decides the
mismatch; only then is a missing field noticed, the first in the order of the record.
-/

namespace TraversalQuery

namespace Json

/-- A decoder of values of one kind. -/
structure Decoder (α : Type) where
  read : Reader
  decode : Json → Except Mismatch α

/-- The parts of a record that were looked for: what was found, the first member that failed with
its number, and the first field that is missing with its number. -/
structure Findings (α : Type) where
  found? : Option α
  failed? : Option (Nat × Mismatch)
  missing? : Option (Nat × String)

/-- Of two numbered things the one with the smaller number. -/
def earlier {β : Type} : Option (Nat × β) → Option (Nat × β) → Option (Nat × β)
  | none, second => second
  | first, none => first
  | some (i, first), some (j, second) => if j < i then some (j, second) else some (i, first)

namespace Findings

/-- Findings put together. -/
def both {α β γ : Type} (combine : α → β → γ) (first : Findings α) (second : Findings β) :
    Findings γ where
  found? := do return combine (← first.found?) (← second.found?)
  failed? := earlier first.failed? second.failed?
  missing? := earlier first.missing? second.missing?

/-- A part that needs nothing. -/
def pure {α : Type} (value : α) : Findings α := ⟨some value, none, none⟩

/-- What a field makes of the outcome of decoding it. -/
def result {α : Type} (number : Nat) : Except Mismatch α → Findings α
  | .ok value => ⟨some value, none, none⟩
  | .error mismatch => ⟨none, some (number, mismatch), none⟩

/-- A field that is not there: its default, or a finding that it is missing. -/
def absent {α : Type} (number : Nat) (name : String) : Option α → Findings α
  | some value => .pure value
  | none => ⟨none, none, some (number, name)⟩

/-- The outcome of looking for the fields of a record. -/
def conclude {α : Type} (findings : Findings α) (lacking : Nat → String → Mismatch) :
    Except Mismatch α :=
  match findings.failed?, findings.missing?, findings.found? with
  | some (_, mismatch), _, _ => .error mismatch
  | none, some (number, name), _ => .error (lacking number name)
  | none, none, some value => .ok value
  | none, none, none => .error (lacking 0 "")

end Findings

/-- The number of the member of a name, with its value. -/
def numbered? (name : String) (members : Members) : Option (Nat × Json) :=
  match members.findIdx? fun (other, _) => other == name with
  | some number => (members[number]?).map fun (_, value) => (number, value)
  | none => none

/-- The parts of a record: the columns they are read as, and how each is found among the members of
an object and among the items of an array. -/
structure Fields (α : Type) where
  columns : List Reader.Column
  inMembers : Members → Findings α
  inItems : List Json → Findings α

namespace Fields

/-- No fields. -/
def none {α : Type} (value : α) : Fields α where
  columns := []
  inMembers _ := .pure value
  inItems _ := .pure value

/-- How many fields there are. -/
def count {α : Type} (fields : Fields α) : Nat := fields.columns.length

/-- The fields of a record with one more at its end. -/
def field {α β : Type} (fields : Fields (α → β)) (name : String) (item : Decoder α)
    (default? : Option α) : Fields β where
  columns := fields.columns ++ [⟨name, default?.isNone, item.read⟩]
  inMembers members :=
    Findings.both (fun make value => make value) (fields.inMembers members) <|
      match numbered? name members with
      | Option.none => .absent fields.count name default?
      | some (number, value) => .result number (item.decode value)
  inItems items :=
    Findings.both (fun make value => make value) (fields.inItems items) <|
      match items[fields.count]? with
      | Option.none => .absent fields.count name default?
      | some value => .result fields.count (item.decode value)

/-- A field that has to be there. -/
def required {α β : Type} (fields : Fields (α → β)) (name : String) (item : Decoder α) :
    Fields β :=
  field fields name item Option.none

/-- A field that may be left out. -/
def defaulted {α β : Type} (fields : Fields (α → β)) (name : String) (item : Decoder α)
    (default : α) : Fields β :=
  field fields name item (some default)

end Fields

namespace Decoder

/-- A text. -/
def text : Decoder String where
  read := .text
  decode
    | .string text => .ok text
    | other => .error (unexpected "a string" other)

/-- A truth value. -/
def flag : Decoder Bool where
  read := .flag
  decode
    | .bool value => .ok value
    | other => .error (unexpected "a boolean" other)

/-- The value `null`. -/
def unit : Decoder Unit where
  read := .unit
  decode
    | .null => .ok ()
    | other => .error (unexpected "unit" other)

/-- Something or `null`. -/
def optional {α : Type} (item : Decoder α) : Decoder (Option α) where
  read := .optional item.read
  decode
    | .null => .ok none
    | other => (item.decode other).map some

/-- An array of values of one kind. -/
def list {α : Type} (item : Decoder α) : Decoder (List α) where
  read := .list item.read
  decode
    | .array items => items.mapM item.decode
    | other => .error (unexpected "a sequence" other)

/-- The value that a name stands for. -/
def named {α : Type} (choices : List (String × α)) (name : String) : Except Mismatch α :=
  match choices.lookup name with
  | some value => .ok value
  | none => .error (.unknownName name (choices.map Prod.fst))

/-- One of several named values: its name, or an object with the name and `null`. -/
def choice {α : Type} (choices : List (String × α)) : Decoder α where
  read := .choice (choices.map Prod.fst)
  decode
    | .string name => named choices name
    | .object [(name, payload)] => do
      let value ← named choices name
      unit.decode payload
      return value
    | .object _ => .error .severalNames
    | other => .error (unexpected "string or map" other)

/-- A record of the given name. -/
def record {α : Type} (name : String) (fields : Fields α) : Decoder α where
  read := .record name fields.columns
  decode
    | .object members => (fields.inMembers members).conclude fun _ field => .missingField field
    | .array items => do
      let value ← (fields.inItems items).conclude fun number _ =>
        .tooFewItems number name fields.count
      if items.length ≤ fields.count then return value else throw (.tooManyItems items.length)
    | other => .error (unexpected s!"struct {name}" other)

/-- Reads a text as one value of the kind. -/
def parse {α : Type} (decoder : Decoder α) (text : String) : Except String α := do
  let value ← decoder.read.parse text
  (decoder.decode value).mapError Mismatch.message

end Decoder

end Json

end TraversalQuery
