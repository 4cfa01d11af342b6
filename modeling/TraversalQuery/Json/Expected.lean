import TraversalQuery.Json.Reader
import TraversalQuery.Json.Skip

/-!
# Reading what is expected

Readers that know what kind of value they are after. A value of another kind is a mismatch, noticed
right behind a scalar and right before a bracket. Readers of records keep the members that the
record has; other members are skipped. What has been read then decodes without a mismatch.
-/

namespace TraversalQuery

namespace Json

/-- The stop at a value that is not what was expected. A scalar has to be readable to be a
mismatch. -/
def mismatchAt (expected : String) (size : Nat) (text : List Char) : Stop :=
  match text with
  | '[' :: _ => .ofMismatch (.invalidType "sequence" expected) text
  | '\x7b' :: _ => .ofMismatch (.invalidType "map" expected) text
  | _ =>
    match readScalar size text with
    | .error stop => stop
    | .ok (value, rest) => .ofMismatch (unexpected expected value) rest

namespace Reader

/-- A value that begins in one of the ways `accepted` knows. -/
def expecting (expected : String)
    (accepted : List Char → Option (Except Stop (Json × List Char))) : Reader := fun size text =>
  match skipBlanks text with
  | [] => .error (.at .endInValue [])
  | text => (accepted text).getD (.error (mismatchAt expected size text))

/-- A text. -/
def text : Reader := fun size =>
  expecting "a string" (fun
    | '"' :: rest => some (readScalar size ('"' :: rest))
    | _ => none) size

/-- A truth value. -/
def flag : Reader := fun size =>
  expecting "a boolean" (fun
    | 't' :: rest => some (readScalar size ('t' :: rest))
    | 'f' :: rest => some (readScalar size ('f' :: rest))
    | _ => none) size

/-- The value `null`. -/
def unit : Reader := fun size =>
  expecting "unit" (fun
    | 'n' :: rest => some (readScalar size ('n' :: rest))
    | _ => none) size

/-- Something or `null`. -/
def optional (item : Reader) : Reader := fun size text =>
  match skipBlanks text with
  | 'n' :: rest => readScalar size ('n' :: rest)
  | _ => item size text

/-- An array of values of one kind. -/
def list (item : Reader) : Reader := fun size =>
  expecting "a sequence" (fun
    | '[' :: rest => some (readItems (item size) (size + 1) [] rest)
    | _ => none) size

/-! ## Choices -/

/-- One of the names, after its opening quote. -/
def readChosen (names : List String) (size : Nat) (text : List Char) :
    Except Stop (String × List Char) := do
  let (name, rest) ← readText size text
  if names.contains name then return (name, rest)
  else throw (.ofMismatch (.unknownName name names) rest)

/-- One of several names: the name, or an object with the name and `null`. An object with nothing in
it lacks the value that was expected. -/
def choice (names : List String) : Reader := fun size text =>
  match skipBlanks text with
  | [] => .error (.at .endInValue [])
  | '"' :: rest => do
    let (name, rest) ← readChosen names size rest
    return (.string name, rest)
  | '\x7b' :: rest =>
    match skipBlanks rest with
    | [] => .error (.at .endInObject [])
    | '"' :: rest => do
      let (name, rest) ← readChosen names size rest
      let (_, rest) ← unit size (← afterColon rest)
      match skipBlanks rest with
      | [] => throw (.before .endInObject [])
      | '\x7d' :: rest => return (.string name, rest)
      | rest => throw (.before .expectedValue rest)
    | '\x7d' :: rest => .error (.at .expectedValue ('\x7d' :: rest))
    | rest => .error (.at .nameNotAString rest)
  | rest => .error (.at .expectedValue rest)

/-! ## Records -/

/-- A part of a record: its name, whether it has to be there, and how it is read. -/
structure Column where
  name : String
  required : Bool
  read : Reader

/-- The end of an array that holds all the parts of a record. -/
def closeRow (text : List Char) : Except Stop (List Char) :=
  match skipBlanks text with
  | [] => .error (.at .endInArray [])
  | ']' :: rest => .ok rest
  | ',' :: rest =>
    match skipBlanks rest with
    | ']' :: rest => .error (.at .trailingComma (']' :: rest))
    | rest => .error (.at .trailingCharacters rest)
  | rest => .error (.at .trailingCharacters rest)

/-- The parts of a record in the order of its columns, after those taken so far. -/
def readRow (record : String) (fields size : Nat) :
    List Column → List Json → List Char → Except Stop (Json × List Char)
  | [], taken, text => do
    let rest ← closeRow text
    return (.array taken.reverse, rest)
  | column :: columns, taken, text => do
    match ← nextItem taken.isEmpty text with
    | .done rest =>
      match (column :: columns).findIdx? (·.required) with
      | some further =>
        throw (.ofMismatch (.tooFewItems (taken.length + further) record fields) rest)
      | none => return (.array taken.reverse, rest)
    | .more text =>
      let (value, rest) ← column.read size text
      readRow record fields size columns (value :: taken) rest

/-- Where a name that was there before is noticed: behind the brace that follows it, or before
whatever else does. -/
def afterRepeated (text : List Char) : List Char :=
  match skipBlanks text with
  | '\x7d' :: rest => rest
  | rest => rest

/-- The members of a record after those taken so far; `fuel` bounds the number of members. -/
def readEntries (columns : List Column) (size : Nat) :
    Nat → Bool → Members → List Char → Except Stop (Json × List Char)
  | 0, _, _, text => .error (.before .endInObject text)
  | fuel + 1, first, taken, text => do
    match ← nextMember first text with
    | .done rest =>
      match columns.find? fun column =>
          column.required && (Members.get? column.name taken).isNone with
      | some column => throw (.ofMismatch (.missingField column.name) rest)
      | none => return (.object taken, rest)
    | .more text =>
      let (name, rest) ← readText size text
      match columns.find? (·.name == name) with
      | none =>
        let rest ← skipValue size (← afterColon rest)
        readEntries columns size fuel false taken rest
      | some column =>
        if (Members.get? name taken).isSome then
          throw (.ofMismatch (.duplicateField name) (afterRepeated rest))
        else
          let (value, rest) ← column.read size (← afterColon rest)
          readEntries columns size fuel false (Members.insert name value taken) rest

/-- A record of the given name: an object with its parts under their names, or an array of them in
their order. -/
def record (name : String) (columns : List Column) : Reader := fun size =>
  expecting s!"struct {name}" (fun
    | '[' :: rest => some (readRow name columns.length size columns [] rest)
    | '\x7b' :: rest => some (readEntries columns size (size + 1) true [] rest)
    | _ => none) size

end Reader

end Json

end TraversalQuery
