import TraversalQuery.Source.BlockString
import TraversalQuery.Source.Token
import TraversalQuery.Text.Digits

/-!
# Lexing

A source text is cut into lexemes, each the longest that its first character allows. White space,
commas and comments stand between lexemes and mean nothing. A lexeme that is malformed keeps the
characters it took, which its error shows.
-/

namespace TraversalQuery

namespace Lexer

open Text (byteLength decimalValue hexNumber?)

/-- A lexeme: the characters it takes, what it stands for, and the text after it. A malformed
lexeme stands for nothing. -/
structure Lexeme where
  taken : List Char
  kind? : Option TokenKind
  rest : List Char
deriving Inhabited

/-- Whether a name can start with the character. -/
def startsName (c : Char) : Bool :=
  c == '_' || c.isAlpha

/-- Whether a name can go on with the character. -/
def continuesName (c : Char) : Bool :=
  c == '_' || c.isAlpha || c.isDigit

/-- The mark that a character is by itself. -/
def markOf? : Char → Option Punctuator
  | '!' => some .bang
  | '$' => some .dollar
  | '&' => some .amp
  | '(' => some .leftParen
  | ')' => some .rightParen
  | ':' => some .colon
  | '=' => some .equals
  | '@' => some .atSign
  | '[' => some .leftBracket
  | ']' => some .rightBracket
  | '\x7b' => some .leftBrace
  | '|' => some .pipe
  | '\x7d' => some .rightBrace
  | _ => none

/-- The name at the head of a text. -/
def nameLexeme (text : List Char) : Lexeme :=
  let (taken, rest) := text.span continuesName
  ⟨taken, some (.name (String.ofList taken)), rest⟩

/-- The digits of the whole part of a number: a single zero, or a run that starts with none. -/
def wholePart : List Char → List Char × List Char
  | '0' :: rest => (['0'], rest)
  | text => text.span Char.isDigit

/-- The fraction at the head of a text, with its point; empty unless a digit follows the point. -/
def fractionPart : List Char → List Char × List Char
  | '.' :: c :: rest =>
    if c.isDigit then
      let (digits, rest) := (c :: rest).span Char.isDigit
      ('.' :: digits, rest)
    else ([], '.' :: c :: rest)
  | text => ([], text)

/-- The sign at the head of a text, if there is one. -/
def signPart : List Char → List Char × List Char
  | '+' :: rest => (['+'], rest)
  | '-' :: rest => (['-'], rest)
  | text => ([], text)

/-- The exponent at the head of a text, with its letter and sign; empty unless a digit follows
them. -/
def exponentPart : List Char → List Char × List Char
  | c :: rest =>
    if c = 'e' ∨ c = 'E' then
      let (sign, afterSign) := signPart rest
      let (digits, afterDigits) := afterSign.span Char.isDigit
      if digits.isEmpty then ([], c :: rest) else (c :: sign ++ digits, afterDigits)
    else ([], c :: rest)
  | [] => ([], [])

/-- The power of ten that an exponent writes. -/
def exponentValue (exponent : List Char) : Int :=
  match exponent with
  | [] => 0
  | _ :: '-' :: digits => -(decimalValue digits : Int)
  | _ :: '+' :: digits => decimalValue digits
  | _ :: digits => decimalValue digits

/-- Whether an integer fits in sixty-four bits with a sign. -/
def fitsWord (value : Int) : Bool :=
  -(Nat.pow 2 63 : Int) ≤ value && value ≤ Nat.pow 2 63 - 1

/-- The number at the head of a text; `sign` was read before it. A number with a fraction or an
exponent is a double, any other has to fit in a word. -/
def numberLexeme (sign text : List Char) : Lexeme :=
  let (whole, afterWhole) := wholePart text
  let (fraction, afterFraction) := fractionPart afterWhole
  let (exponent, rest) := exponentPart afterFraction
  let negative := !sign.isEmpty
  if fraction.isEmpty ∧ exponent.isEmpty then
    let value : Int := if negative then -(decimalValue whole : Int) else decimalValue whole
    ⟨sign ++ whole, if fitsWord value then some (.int value) else none, rest⟩
  else
    let digits := decimalValue (whole ++ fraction.drop 1)
    let power := exponentValue exponent - (fraction.drop 1).length
    ⟨sign ++ whole ++ fraction ++ exponent,
      some (.float (Binary64.ofDecimal negative digits power)), rest⟩

/-- The text up to the quote that closes a string, and the text after that quote. A backslash and
the character after it belong together; a string does not go beyond its line. -/
def stringBody : List Char → List Char × Option (List Char)
  | [] => ([], none)
  | '"' :: rest => ([], some rest)
  | '\n' :: _ => ([], none)
  | ['\\'] => ([], none)
  | '\\' :: c :: rest =>
    if c = '\n' then ([], none)
    else
      let (body, after?) := stringBody rest
      ('\\' :: c :: body, after?)
  | c :: rest =>
    let (body, after?) := stringBody rest
    (c :: body, after?)

/-- The text up to the three quotes that close a block string, and the text after them. One or two
quotes belong to the character after them. -/
def blockBody : List Char → List Char × Option (List Char)
  | [] => ([], none)
  | '"' :: '"' :: '"' :: rest => ([], some rest)
  | ['"', '"'] => ([], none)
  | ['"'] => ([], none)
  | '"' :: '"' :: c :: rest =>
    let (body, after?) := blockBody rest
    ('"' :: '"' :: c :: body, after?)
  | '"' :: c :: rest =>
    let (body, after?) := blockBody rest
    ('"' :: c :: body, after?)
  | c :: rest =>
    let (body, after?) := blockBody rest
    (c :: body, after?)

/-- The character that the four characters of an escape write: hexadecimal digits, of which the
first may be a plus sign. Surrogates are no characters. -/
def codePoint? (a b c d : Char) : Option Char := do
  let value ← if a = '+' then hexNumber? [b, c, d] else hexNumber? [a, b, c, d]
  if 0xd800 ≤ value ∧ value ≤ 0xdfff then none else some (Char.ofNat value)

/-- The character that a one-letter escape writes. -/
def shortEscape? : Char → Option Char
  | '"' => some '"'
  | '\\' => some '\\'
  | '/' => some '/'
  | 'b' => some '\x08'
  | 'f' => some '\x0c'
  | 'n' => some '\n'
  | 'r' => some '\r'
  | 't' => some '\t'
  | _ => none

/-- The text that the body of a string writes, unless one of its escapes is none. -/
def unescape? : List Char → Option (List Char)
  | [] => some []
  | '\\' :: 'u' :: a :: b :: c :: d :: rest => do
    let first ← codePoint? a b c d
    let others ← unescape? rest
    return first :: others
  | ['\\'] => none
  | '\\' :: c :: rest => do
    let first ← shortEscape? c
    let others ← unescape? rest
    return first :: others
  | c :: rest => do
    let others ← unescape? rest
    return c :: others

/-- The string at the head of a text, after its opening quote. -/
def stringLexeme (text : List Char) : Lexeme :=
  match stringBody text with
  | (body, some rest) =>
    ⟨'"' :: body ++ ['"'], (unescape? body).map fun value => .string (String.ofList value), rest⟩
  | (body, none) => ⟨'"' :: body, none, text.drop body.length⟩

/-- Three quotes. -/
def blockQuotes : List Char := ['"', '"', '"']

/-- The block string at the head of a text, after its opening quotes. -/
def blockLexeme (text : List Char) : Lexeme :=
  match blockBody text with
  | (body, some rest) =>
    ⟨blockQuotes ++ body ++ blockQuotes,
      some (.blockString (String.ofList (BlockString.value body))), rest⟩
  | (body, none) => ⟨blockQuotes ++ body, none, text.drop body.length⟩

/-- The lexeme that starts with `c`. -/
def lexeme (c : Char) (rest : List Char) : Lexeme :=
  match markOf? c with
  | some punctuator => ⟨[c], some (.mark punctuator), rest⟩
  | none =>
    if startsName c then nameLexeme (c :: rest)
    else if c.isDigit then numberLexeme [] (c :: rest)
    else
      match c, rest with
      | '.', '.' :: '.' :: rest => ⟨['.', '.', '.'], some (.mark .spread), rest⟩
      | '-', d :: rest =>
        if d.isDigit then numberLexeme ['-'] (d :: rest) else ⟨[c], none, d :: rest⟩
      | '"', '"' :: '"' :: rest => blockLexeme rest
      | '"', rest => stringLexeme rest
      | c, rest => ⟨[c], none, rest⟩

/-- Whether the character stands between lexemes. -/
def isIgnored (c : Char) : Bool :=
  c == ' ' || c == '\t' || c == '\r' || c == '\n' || c == ','

/-- The text from the next lexeme on, and its offset; a comment runs to the end of its line. -/
def skipIgnored : Bool → Nat → List Char → Nat × List Char
  | _, offset, [] => (offset, [])
  | true, offset, c :: rest => skipIgnored (c != '\n') (offset + c.utf8Size) rest
  | false, offset, c :: rest =>
    if isIgnored c then skipIgnored false (offset + c.utf8Size) rest
    else if c = '#' then skipIgnored true (offset + c.utf8Size) rest
    else (offset, c :: rest)

/-- The tokens of a text whose first character is at `offset`; `fuel` is at least the number of
characters, each token taking one or more. -/
def tokensFrom : Nat → Nat → List Char → Except SyntaxError (List Token)
  | 0, _, _ => .ok []
  | fuel + 1, offset, text =>
    match skipIgnored false offset text with
    | (_, []) => .ok []
    | (start, c :: rest) =>
      let found := lexeme c rest
      let stop := start + byteLength found.taken
      match found.kind? with
      | none =>
        .error ⟨.unexpectedCharacters (String.ofList found.taken), .ofRange start stop⟩
      | some kind => do
        let others ← tokensFrom fuel stop found.rest
        return ⟨kind, .ofRange start stop⟩ :: others

/-- The tokens of a source text. -/
def tokens (source : String) : Except SyntaxError (List Token) :=
  let text := source.toList
  tokensFrom text.length 0 text

end Lexer

end TraversalQuery
