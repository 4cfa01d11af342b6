import TraversalQuery.Source.Span
import TraversalQuery.Text.Blank

/-!
# Locations

Spans count bytes; people look for lines and columns. Both are counted from one, columns in
characters. A line ends with any of the line breaks of Unicode, which belongs to it; a carriage
return with a line feed after it is one line break.
-/

namespace TraversalQuery

/-- A line and a column, both counted from one. -/
structure Location where
  line : Nat
  column : Nat
deriving DecidableEq, Inhabited, Repr

namespace Location

/-- The characters that end a line. -/
def isLineBreak (c : Char) : Bool :=
  ['\n', '\x0b', '\x0c', '\r', '\u0085', '\u2028', '\u2029'].contains c

/-- The numbers of characters in the lines of a text, line breaks included. -/
def lineLengths : List Char → List Nat
  | [] => []
  | '\r' :: '\n' :: rest => 2 :: lineLengths rest
  | c :: rest =>
    if isLineBreak c then 1 :: lineLengths rest
    else
      match lineLengths rest with
      | [] => [1]
      | length :: others => (length + 1) :: others

/-- The location of the character of a number, in a text with lines of the given lengths. What lies
behind the last line is counted as if it were on it. -/
def inLines : List Nat → Nat → Location
  | [], offset => ⟨1, offset + 1⟩
  | [_], offset => ⟨1, offset + 1⟩
  | length :: next :: others, offset =>
    if offset < length then ⟨1, offset + 1⟩
    else
      let rest := inLines (next :: others) (offset - length)
      { rest with line := rest.line + 1 }

/-- How many characters stand before the byte of a number, when a character begins there or the
text ends there. -/
def charactersBefore? : List Char → Nat → Option Nat
  | _, 0 => some 0
  | [], _ + 1 => none
  | c :: rest, byte + 1 =>
    if byte + 1 < c.utf8Size then none
    else (charactersBefore? rest (byte + 1 - c.utf8Size)).map (· + 1)

/-- The number of the character at a byte. A byte where no character begins, or behind the text,
stands for the character of its own number. -/
def characterAt (text : List Char) (byte : Nat) : Nat :=
  (charactersBefore? text byte).getD byte

/-- Where a span of a text begins. An empty text has no lines, and so no locations; in other texts a
span that reaches further than just behind the text has none. -/
def ofSpan? (text : List Char) (span : Span) : Option Location :=
  let start := characterAt text span.start
  let stop := characterAt text span.stop
  if text.isEmpty || text.length < start || text.length + 1 < stop then none
  else some (inLines (lineLengths text) start)

/-- A location in a file. -/
def text (location : Location) (path : String) : String :=
  s!"{path}:{location.line}:{location.column}"

end Location

end TraversalQuery
