import TraversalQuery.Number.Format
import TraversalQuery.Source.Span

/-!
# Tokens

The tokens of the query language, and what can be wrong with a source text. Keywords are ordinary
names: the grammar gives them their meaning by where they stand.
-/

namespace TraversalQuery

/-- The marks that structure a document. -/
inductive Punctuator where
  | bang
  | dollar
  | amp
  | leftParen
  | rightParen
  | spread
  | colon
  | equals
  | atSign
  | leftBracket
  | rightBracket
  | leftBrace
  | pipe
  | rightBrace
deriving DecidableEq, Inhabited, Repr

/-- A punctuator as it is written. -/
def Punctuator.text : Punctuator → String
  | .bang => "!"
  | .dollar => "$"
  | .amp => "&"
  | .leftParen => "("
  | .rightParen => ")"
  | .spread => "..."
  | .colon => ":"
  | .equals => "="
  | .atSign => "@"
  | .leftBracket => "["
  | .rightBracket => "]"
  | .leftBrace => "\x7b"
  | .pipe => "|"
  | .rightBrace => "\x7d"

/-- What a token stands for. -/
inductive TokenKind where
  | mark (mark : Punctuator)
  | name (text : String)
  | int (value : Int)
  | float (value : Binary64)
  | string (text : String)
  | blockString (text : String)
deriving DecidableEq, Inhabited, Repr

/-- A token in a few words, as messages name it. -/
def TokenKind.describe : TokenKind → String
  | .mark punctuator => s!"`{punctuator.text}`"
  | .name text => s!"name `{text}`"
  | .int value => s!"integer `{value}`"
  | .float value => s!"float `{value.messageText}`"
  | .string _ => "string"
  | .blockString _ => "string"

/-- A token and the place it stands at. -/
structure Token where
  kind : TokenKind
  span : Span
deriving DecidableEq, Inhabited, Repr

/-- What the grammar asks for at a place. -/
inductive Expected where
  | name
  | value
  | definition
  | mark (mark : Punctuator)
  | keyword (word : String)
deriving DecidableEq, Repr

/-- What is asked for, in words. -/
def Expected.text : Expected → String
  | .name => "a name"
  | .value => "a value"
  | .definition => "a definition"
  | .mark punctuator => s!"`{punctuator.text}`"
  | .keyword word => s!"`{word}`"

/-- The deepest nesting of selection sets, values and type references in a document. -/
def maxNesting : Nat := 256

/-- What is wrong with a source text. -/
inductive SyntaxFault where
  | unexpectedCharacters (slice : String)
  | unexpectedToken (expected : Expected) (found? : Option TokenKind)
  | nestsTooDeep
  | noDefinitions
  | emptySelectionSet
  | fragmentNamedOn
  | variableNotAllowed
  | unknownRootOperation (keyword : String)
  | unsupportedDefinition (keyword : String)
  | reservedEnumValue (value : String)
deriving DecidableEq, Repr

/-- A fault in words. -/
def SyntaxFault.message : SyntaxFault → String
  | .unexpectedCharacters slice => s!"unexpected character `{slice}`"
  | .unexpectedToken expected none => s!"expected {expected.text}, found end of input"
  | .unexpectedToken expected (some found) =>
    s!"expected {expected.text}, found {found.describe}"
  | .nestsTooDeep => s!"document nests deeper than {maxNesting} levels"
  | .noDefinitions => "document contains no definitions"
  | .emptySelectionSet => "selection set must not be empty"
  | .fragmentNamedOn => "fragment cannot be named `on`"
  | .variableNotAllowed => "variables are not allowed here"
  | .unknownRootOperation keyword => s!"unknown root operation `{keyword}`"
  | .unsupportedDefinition keyword => s!"unsupported definition `{keyword}`"
  | .reservedEnumValue value => s!"`{value}` cannot be an enum value"

/-- A fault and the place it is blamed on. -/
structure SyntaxError where
  fault : SyntaxFault
  span : Span
deriving DecidableEq, Repr

namespace SyntaxError

/-- The error in words, without its place. -/
def message (error : SyntaxError) : String :=
  error.fault.message

/-- The error in words, with its place. -/
def text (error : SyntaxError) : String :=
  s!"{error.message} at {error.span.text}"

end SyntaxError

end TraversalQuery
