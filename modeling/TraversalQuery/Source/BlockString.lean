import TraversalQuery.Text.Blank
import TraversalQuery.Text.Split

/-!
# Block strings

The value of a block string is its text without the indentation its lines share and without the
blank lines around it. The first line takes no part in the indentation, because it starts after the
opening quotes.
-/

namespace TraversalQuery

namespace BlockString

open Text

/-- The indentation of a line in bytes. -/
def indentOf (line : List Char) : Nat :=
  byteLength line - byteLength (trimStart line)

/-- The smallest of the numbers; zero if there are none. -/
def least : List Nat → Nat
  | [] => 0
  | [only] => only
  | first :: second :: rest =>
    let others := least (second :: rest)
    if first ≤ others then first else others

/-- The indentation shared by the lines that are not blank. -/
def commonIndent (lines : List (List Char)) : Nat :=
  least ((lines.filter fun line => !allBlank line).map indentOf)

/-- The line after its first `count` bytes, if a character starts there. -/
def dropBytes? : Nat → List Char → Option (List Char)
  | 0, line => some line
  | _ + 1, [] => none
  | count + 1, c :: rest =>
    if c.utf8Size ≤ count + 1 then dropBytes? (count + 1 - c.utf8Size) rest else none

/-- The lines with the indentation of all but the first removed. -/
def dedent : List (List Char) → List (List Char)
  | [] => []
  | first :: rest =>
    first :: rest.map fun line => (dropBytes? (commonIndent rest) line).getD []

/-- The lines without the blank ones at either end. -/
def trimLines (lines : List (List Char)) : List (List Char) :=
  ((lines.dropWhile allBlank).reverse.dropWhile allBlank).reverse

/-- The value of a block string with the given text between its quotes. -/
def value (body : List Char) : List Char :=
  joined ['\n'] (trimLines (dedent (lines body)))

end BlockString

end TraversalQuery
