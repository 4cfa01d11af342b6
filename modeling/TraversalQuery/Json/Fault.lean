import TraversalQuery.Json.Mismatch
import TraversalQuery.Text.Blank

/-!
# Faults in JSON texts

Reading stops at the first fault. A place in a text is kept as the text from there on, and is turned
into a line and a column only when a message needs it.
-/

namespace TraversalQuery

namespace Json

open Text (byteLength)

/-- What is wrong with a text that should hold JSON. -/
inductive Fault where
  | endInValue
  | endInArray
  | endInObject
  | endInString
  | expectedColon
  | expectedCommaOrBracket
  | expectedCommaOrBrace
  | expectedWord
  | expectedValue
  | invalidEscape
  | invalidNumber
  | numberOutOfRange
  | controlCharacter
  | nameNotAString
  | loneSurrogate
  | endInSurrogatePair
  | trailingComma
  | trailingCharacters
  | tooDeep
  | mismatch (cause : Mismatch)
deriving DecidableEq, Repr

/-- A fault in words. -/
def Fault.message : Fault → String
  | .endInValue => "EOF while parsing a value"
  | .endInArray => "EOF while parsing a list"
  | .endInObject => "EOF while parsing an object"
  | .endInString => "EOF while parsing a string"
  | .expectedColon => "expected `:`"
  | .expectedCommaOrBracket => "expected `,` or `]`"
  | .expectedCommaOrBrace => "expected `,` or `\x7d`"
  | .expectedWord => "expected ident"
  | .expectedValue => "expected value"
  | .invalidEscape => "invalid escape"
  | .invalidNumber => "invalid number"
  | .numberOutOfRange => "number out of range"
  | .controlCharacter =>
    "control character (\\u0000-\\u001F) found while parsing a string"
  | .nameNotAString => "key must be a string"
  | .loneSurrogate => "lone leading surrogate in hex escape"
  | .endInSurrogatePair => "unexpected end of hex escape"
  | .trailingComma => "trailing comma"
  | .trailingCharacters => "trailing characters"
  | .tooDeep => "recursion limit exceeded"
  | .mismatch cause => cause.message

/-- A place in a text: the text from there on, and how many more bytes of it were looked at. -/
structure Spot where
  rest : List Char
  ahead : Nat
deriving Inhabited

/-- Where reading ended, and why. -/
structure Stop where
  fault : Fault
  spot : Spot

/-- A fault right before the rest of the text. -/
def Stop.before (fault : Fault) (rest : List Char) : Stop := ⟨fault, ⟨rest, 0⟩⟩

/-- A fault at the first byte of the rest of the text, or at the end. -/
def Stop.at (fault : Fault) (rest : List Char) : Stop := ⟨fault, ⟨rest, 1⟩⟩

/-- A mismatch that is noticed right before the rest of the text. -/
def Stop.ofMismatch (cause : Mismatch) (rest : List Char) : Stop :=
  .before (.mismatch cause) rest

namespace Spot

/-- The line and the column that a number of bytes further on lead to. A line feed ends a line, and
columns count bytes. -/
def advance : Nat → Nat × Nat → List Char → Nat × Nat
  | _, place, [] => place
  | bytes, (line, column), c :: rest =>
    if bytes < c.utf8Size then (line, column + bytes)
    else if c = '\n' then advance (bytes - c.utf8Size) (line + 1, 0) rest
    else advance (bytes - c.utf8Size) (line, column + c.utf8Size) rest

/-- The line, counted from one, and the column of a place in a text. -/
def place (text : List Char) (spot : Spot) : Nat × Nat :=
  advance (byteLength text - byteLength spot.rest + spot.ahead) (1, 0) text

end Spot

/-- A stop in words, with its place in the text. -/
def Stop.message (text : List Char) (stop : Stop) : String :=
  let (line, column) := stop.spot.place text
  s!"{stop.fault.message} at line {line} column {column}"

end Json

end TraversalQuery
