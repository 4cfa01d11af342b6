import TraversalQuery.Json.Scalar

/-!
# Skipping values

Members that nobody asks for are skipped. Skipping looks at a value only as closely as it takes to
find its end: strings are not turned into characters, so that halves of surrogate pairs do no harm,
numbers are not turned into doubles, and brackets may nest as deep as they like.
-/

namespace TraversalQuery

namespace Json

/-- The text after an escape, given the text after its backslash. -/
def skipEscape : List Char → Except Stop (List Char)
  | [] => .error (.before .endInString [])
  | 'u' :: rest => (readHex rest).map Prod.snd
  | c :: rest =>
    if (shortEscape? c).isSome then .ok rest else .error (.at .invalidEscape (c :: rest))

/-- The text after a string, given the text after its opening quote. -/
def skipText : Nat → List Char → Except Stop (List Char)
  | _, [] => .error (.before .endInString [])
  | 0, rest => .error (.before .endInString rest)
  | size + 1, c :: rest =>
    if c = '"' then .ok rest
    else if c = '\\' then
      match skipEscape rest with
      | .error stop => .error stop
      | .ok rest => skipText size rest
    else if c.toNat < 0x20 then .error (.before .controlCharacter (c :: rest))
    else skipText size rest

/-- The text after an exponent, given the text after its letter. -/
def skipExponent (text : List Char) : Except Stop (List Char) :=
  let text :=
    match text with
    | '+' :: rest => rest
    | '-' :: rest => rest
    | _ => text
  match text.span Char.isDigit with
  | ([], rest) => .error (.at .invalidNumber rest)
  | (_, rest) => .ok rest

/-- The text after a fraction, given the text after its point. -/
def skipFraction (text : List Char) : Except Stop (List Char) :=
  match text.span Char.isDigit with
  | ([], rest) => .error (.at .invalidNumber rest)
  | (_, 'e' :: rest) => skipExponent rest
  | (_, 'E' :: rest) => skipExponent rest
  | (_, rest) => .ok rest

/-- The text after a number, given the text after its sign. -/
def skipNumber (text : List Char) : Except Stop (List Char) :=
  match text.span Char.isDigit, text with
  | ([], rest), _ => .error (.at .invalidNumber rest)
  | ('0' :: _ :: _, _), _ :: rest => .error (.at .invalidNumber rest)
  | (_, '.' :: rest), _ => skipFraction rest
  | (_, 'e' :: rest), _ => skipExponent rest
  | (_, 'E' :: rest), _ => skipExponent rest
  | (_, rest), _ => .ok rest

/-- The text after a scalar, at its first character. -/
def skipScalar (size : Nat) : List Char → Except Stop (List Char)
  | [] => .error (.at .endInValue [])
  | 'n' :: rest => readWord ['u', 'l', 'l'] rest
  | 't' :: rest => readWord ['r', 'u', 'e'] rest
  | 'f' :: rest => readWord ['a', 'l', 's', 'e'] rest
  | '-' :: rest => skipNumber rest
  | '"' :: rest => skipText size rest
  | c :: rest =>
    if c.isDigit then skipNumber (c :: rest) else .error (.at .expectedValue (c :: rest))

/-- The two kinds of brackets. -/
inductive Bracket where
  | square
  | curly
deriving DecidableEq, Repr

namespace Bracket

/-- The character that closes a bracket. -/
def closing : Bracket → Char
  | square => ']'
  | curly => '\x7d'

/-- The fault of a text that ends in brackets. -/
def endFault : Bracket → Fault
  | square => .endInArray
  | curly => .endInObject

/-- The fault of an entry that is followed by neither a comma nor the end. -/
def separatorFault : Bracket → Fault
  | square => .expectedCommaOrBracket
  | curly => .expectedCommaOrBrace

end Bracket

/-- What is skipped next: a value, or a name with the value after it, or what follows a value. -/
inductive Phase where
  | value
  | member
  | after
deriving DecidableEq, Repr

/-- What an entry in brackets begins with. -/
def Bracket.entry : Bracket → Phase
  | square => .value
  | curly => .member

/-- The text after a name and its colon, at the name. -/
def skipName (size : Nat) (text : List Char) : Except Stop (List Char) :=
  match skipBlanks text with
  | [] => .error (.at .endInObject [])
  | '"' :: rest => do
    let rest ← skipText size rest
    match skipBlanks rest with
    | [] => throw (.at .endInObject [])
    | ':' :: rest => return rest
    | rest => throw (.at .expectedColon rest)
  | rest => .error (.at .nameNotAString rest)

/-- What is skipped next from behind an opening bracket, which may be closed at once. -/
def enterBracket (bracket : Bracket) (around : List Bracket) (text : List Char) :
    Except Stop (Phase × List Bracket × List Char) :=
  match skipBlanks text with
  | [] => .error (.at bracket.endFault [])
  | c :: rest =>
    if c = bracket.closing then .ok (.after, around, rest)
    else .ok (bracket.entry, bracket :: around, c :: rest)

/-- What is skipped next from behind a value in a bracket. -/
def leaveEntry (bracket : Bracket) (around : List Bracket) (text : List Char) :
    Except Stop (Phase × List Bracket × List Char) :=
  match skipBlanks text with
  | [] => .error (.at bracket.endFault [])
  | c :: rest =>
    if c = ',' then .ok (bracket.entry, bracket :: around, rest)
    else if c = bracket.closing then .ok (.after, around, rest)
    else .error (.at bracket.separatorFault (c :: rest))

/-- One step of skipping: the brackets that are open, innermost first, and the text after it. -/
def skipStep (size : Nat) (around : List Bracket) (text : List Char) :
    Phase → Except Stop (Phase × List Bracket × List Char)
  | .value =>
    match skipBlanks text with
    | '[' :: rest => enterBracket .square around rest
    | '\x7b' :: rest => enterBracket .curly around rest
    | text => (skipScalar size text).map fun rest => (.after, around, rest)
  | .member => (skipName size text).map fun rest => (.value, around, rest)
  | .after =>
    match around with
    | [] => .ok (.after, [], text)
    | bracket :: around => leaveEntry bracket around text

/-- The text after all the brackets that are open; `fuel` bounds the steps. -/
def skipOpen (size : Nat) : Nat → Phase → List Bracket → List Char → Except Stop (List Char)
  | _, .after, [], text => .ok text
  | 0, _, _, text => .error (.before .endInValue text)
  | fuel + 1, phase, around, text =>
    match skipStep size around text phase with
    | .error stop => .error stop
    | .ok (phase, around, rest) => skipOpen size fuel phase around rest

/-- The text after a value. -/
def skipValue (size : Nat) (text : List Char) : Except Stop (List Char) :=
  skipOpen size (size + 1) .value [] text

end Json

end TraversalQuery
