import TraversalQuery.Json.Scalar

/-!
# Reading JSON

A reader takes one value off the front of a text. `Reader.value` takes whatever stands there, with
brackets nested at most 127 deep; other readers know what they expect. The parts of arrays and
objects that come between two values are read here once for all of them.
-/

namespace TraversalQuery

namespace Json

/-- A reader of values: it is given a bound on the length of the text, and the text. -/
abbrev Reader := Nat → List Char → Except Stop (Json × List Char)

/-- What comes next in brackets: their end, with the text after it, or one more entry, with the text
it begins. -/
inductive Next where
  | done (rest : List Char)
  | more (text : List Char)

/-- What comes next in an array, `first` telling whether nothing came yet. -/
def nextItem (first : Bool) (text : List Char) : Except Stop Next :=
  match skipBlanks text with
  | [] => .error (.at .endInArray [])
  | ']' :: rest => .ok (.done rest)
  | c :: rest =>
    if first then .ok (.more (c :: rest))
    else if c ≠ ',' then .error (.at .expectedCommaOrBracket (c :: rest))
    else
      match skipBlanks rest with
      | [] => .error (.at .endInValue [])
      | ']' :: rest => .error (.at .trailingComma (']' :: rest))
      | rest => .ok (.more rest)

/-- What comes next in an object, `first` telling whether nothing came yet. A member begins at the
character after the quote that opens its name. -/
def nextMember (first : Bool) (text : List Char) : Except Stop Next :=
  match skipBlanks text with
  | [] => .error (.at .endInObject [])
  | '\x7d' :: rest => .ok (.done rest)
  | c :: rest =>
    if first then
      if c = '"' then .ok (.more rest) else .error (.at .nameNotAString (c :: rest))
    else if c ≠ ',' then .error (.at .expectedCommaOrBrace (c :: rest))
    else
      match skipBlanks rest with
      | [] => .error (.at .endInValue [])
      | '"' :: rest => .ok (.more rest)
      | '\x7d' :: rest => .error (.at .trailingComma ('\x7d' :: rest))
      | rest => .error (.at .nameNotAString rest)

/-- The text after the colon that separates a name from its value. -/
def afterColon (text : List Char) : Except Stop (List Char) :=
  match skipBlanks text with
  | [] => .error (.at .endInObject [])
  | ':' :: rest => .ok rest
  | rest => .error (.at .expectedColon rest)

/-- The items of an array after those taken so far; `fuel` bounds their number. -/
def readItems (item : List Char → Except Stop (Json × List Char)) :
    Nat → List Json → List Char → Except Stop (Json × List Char)
  | 0, _, text => .error (.before .endInArray text)
  | fuel + 1, taken, text => do
    match ← nextItem taken.isEmpty text with
    | .done rest => return (.array taken.reverse, rest)
    | .more text =>
      let (value, rest) ← item text
      readItems item fuel (value :: taken) rest

/-- The members of an object after those taken so far, a later one replacing an earlier one of its
name; `fuel` bounds their number. -/
def readMembers (value : List Char → Except Stop (Json × List Char)) (size : Nat) :
    Nat → Bool → Members → List Char → Except Stop (Json × List Char)
  | 0, _, _, text => .error (.before .endInObject text)
  | fuel + 1, first, taken, text => do
    match ← nextMember first text with
    | .done rest => return (.object taken, rest)
    | .more text =>
      let (name, rest) ← readText size text
      let (member, rest) ← value (← afterColon rest)
      readMembers value size fuel false (Members.insert name member taken) rest

/-- A value with brackets nested at most `room` deep. -/
def readValue : Nat → Reader
  | room, size, text =>
    match skipBlanks text, room with
    | '[' :: rest, 0 => .error (.at .tooDeep ('[' :: rest))
    | '\x7b' :: rest, 0 => .error (.at .tooDeep ('\x7b' :: rest))
    | '[' :: rest, room + 1 => readItems (readValue room size) (size + 1) [] rest
    | '\x7b' :: rest, room + 1 => readMembers (readValue room size) size (size + 1) true [] rest
    | text, _ => readScalar size text

namespace Reader

/-- The deepest nesting of brackets that is read. -/
def depthLimit : Nat := 127

/-- A value of any kind. -/
def value : Reader := readValue depthLimit

/-- The value that a whole text writes, or what is wrong with the text. -/
def parse (reader : Reader) (text : String) : Except String Json :=
  let characters := text.toList
  let outcome : Except Stop Json := do
    let (value, rest) ← reader characters.length characters
    match skipBlanks rest with
    | [] => return value
    | rest => throw (.at .trailingCharacters rest)
  outcome.mapError (Stop.message characters)

end Reader

/-- Reads a text as one value. -/
def parse (text : String) : Except String Json :=
  Reader.value.parse text

end Json

end TraversalQuery
