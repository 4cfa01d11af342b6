import TraversalQuery.Source.Token

/-!
# Reading tokens

A cursor stands between the tokens already read and those still to come. A reading consumes tokens
from the front and either gives a result or stops at a syntax error. The loops of the grammar run
over the tokens that are left: each round consumes one, so there are never more rounds than tokens.
-/

namespace TraversalQuery

/-- The tokens still to be read, the span of the last one read, and the span of the text's end. -/
structure Cursor where
  rest : List Token
  last : Span
  ending : Span
deriving DecidableEq, Inhabited

/-- A part of the grammar: it reads tokens and gives what they stand for. -/
abbrev Reading (α : Type) := StateT Cursor (Except SyntaxError) α

namespace Cursor

/-- The cursor before the first of the tokens of a text of the given length in bytes. -/
def start (tokens : List Token) (length : Nat) : Cursor :=
  ⟨tokens, .zero, .ofRange length length⟩

/-- The kind of the next token. -/
def kind? (cursor : Cursor) : Option TokenKind :=
  cursor.rest.head?.map (·.kind)

/-- The span of the next token, or of the end. -/
def span (cursor : Cursor) : Span :=
  match cursor.rest with
  | [] => cursor.ending
  | token :: _ => token.span

/-- Whether the next token is the given mark. -/
def sees (cursor : Cursor) (mark : Punctuator) : Bool :=
  cursor.kind? == some (.mark mark)

/-- Whether the next token is the given word. -/
def seesWord (cursor : Cursor) (word : String) : Bool :=
  cursor.kind? == some (.name word)

/-- The cursor after the next token; at the end it stays. -/
def next (cursor : Cursor) : Cursor :=
  match cursor.rest with
  | [] => cursor
  | token :: rest => { cursor with rest := rest, last := token.span }

end Cursor

namespace Reading

variable {α : Type}

/-- The kind of the next token. -/
def kind? : Reading (Option TokenKind) := do
  return (← get).kind?

/-- The span of the next token. -/
def span : Reading Span := do
  return (← get).span

/-- The span from `start` to the end of the last token read. -/
def spanFrom (start : Span) : Reading Span := do
  return start.merge (← get).last

/-- Whether all tokens are read. -/
def atEnd : Reading Bool := do
  return (← get).rest.isEmpty

/-- Whether the next token is the given mark. -/
def sees (mark : Punctuator) : Reading Bool := do
  return (← get).sees mark

/-- Whether the next token is the given word. -/
def seesWord (word : String) : Reading Bool := do
  return (← get).seesWord word

/-- Moves past the next token. -/
def advance : Reading Unit :=
  modify Cursor.next

/-- Fails with a fault at a span. -/
def fail (fault : SyntaxFault) (span : Span) : Reading α :=
  throw ⟨fault, span⟩

/-- Fails because the next token is not what the grammar asks for. -/
def unexpected (expected : Expected) : Reading α := do
  fail (.unexpectedToken expected (← kind?)) (← span)

/-- Moves past a mark if it is next, and tells whether it was. -/
def accept (mark : Punctuator) : Reading Bool := do
  if ← sees mark then
    advance
    return true
  else return false

/-- Moves past a mark and gives its span. -/
def expect (mark : Punctuator) : Reading Span := do
  if ← sees mark then
    let place ← span
    advance
    return place
  else unexpected (.mark mark)

/-- Reads a name. -/
def name : Reading String := do
  match ← kind? with
  | some (.name text) =>
    advance
    return text
  | _ => unexpected .name

/-- Moves past a word and gives its span. -/
def expectWord (word : String) : Reading Span := do
  if ← seesWord word then
    let place ← span
    advance
    return place
  else unexpected (.keyword word)

/-- Items up to a closing mark. With no tokens left the item itself tells what is missing. -/
def manyUntil (close : Punctuator) (item : Reading α) : Nat → Reading (List α)
  | 0 => do
    if ← accept close then return []
    return [← item]
  | rounds + 1 => do
    if ← accept close then return []
    let first ← item
    let others ← manyUntil close item rounds
    return first :: others

/-- Items up to a closing mark. -/
def itemsUntil (close : Punctuator) (item : Reading α) : Reading (List α) := do
  manyUntil close item (← get).rest.length

/-- Items as long as the next token is the mark that each begins with. -/
def manyWhile (mark : Punctuator) (item : Reading α) : Nat → Reading (List α)
  | 0 => return []
  | rounds + 1 => do
    if ← sees mark then
      let first ← item
      let others ← manyWhile mark item rounds
      return first :: others
    else return []

/-- Items that each begin with a mark. -/
def itemsWhile (mark : Punctuator) (item : Reading α) : Reading (List α) := do
  manyWhile mark item (← get).rest.length

/-- Items as long as there are tokens. -/
def manyToEnd (item : Reading α) : Nat → Reading (List α)
  | 0 => return []
  | rounds + 1 => do
    if ← atEnd then return []
    let first ← item
    let others ← manyToEnd item rounds
    return first :: others

/-- Items up to the end. -/
def itemsToEnd (item : Reading α) : Reading (List α) := do
  manyToEnd item (← get).rest.length

end Reading

end TraversalQuery
