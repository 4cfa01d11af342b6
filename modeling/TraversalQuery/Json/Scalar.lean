import TraversalQuery.Json.Fault
import TraversalQuery.Text.Digits

/-!
# Scalars in JSON texts

The values that hold no other values: words, numbers and strings. Every reader takes them off the
front of a text and gives the text after them. A number that fits a word of 64 bits, signed or
unsigned, is an integer; all others are doubles.

Where a `size` is asked for, it bounds the length of the text.
-/

namespace TraversalQuery

namespace Json

open Text (byteLength digitValue hexNumber?)

/-- The text after the blanks JSON allows between its parts. -/
def skipBlanks (text : List Char) : List Char :=
  text.dropWhile fun c => c == ' ' || c == '\n' || c == '\t' || c == '\r'

/-- The text after a word, such as the `rue` of `true`. -/
def readWord : List Char → List Char → Except Stop (List Char)
  | [], rest => .ok rest
  | _ :: _, [] => .error (.before .endInValue [])
  | w :: word, c :: rest =>
    if c = w then readWord word rest else .error (.at .expectedWord (c :: rest))

/-! ## Strings -/

/-- Why four hexadecimal digits cannot be read: four bytes are there and are no such digits, or the
text ends before them. -/
def hexStop (text : List Char) : Stop :=
  if 4 ≤ byteLength (text.take 4) then ⟨.invalidEscape, ⟨text, 4⟩⟩ else .before .endInString []

/-- The number written by the four hexadecimal digits of an escape. -/
def readHex (text : List Char) : Except Stop (Nat × List Char) :=
  match text with
  | a :: b :: c :: d :: rest =>
    match hexNumber? [a, b, c, d] with
    | some value => .ok (value, rest)
    | none => .error (hexStop text)
  | _ => .error (hexStop text)

/-- The character of a hexadecimal escape; a leading surrogate needs a second escape after it. -/
def readCodePoint (text : List Char) : Except Stop (Char × List Char) := do
  let (first, rest) ← readHex text
  if 0xdc00 ≤ first ∧ first ≤ 0xdfff then throw (.before .loneSurrogate rest)
  else if first < 0xd800 ∨ 0xdbff < first then return (Char.ofNat first, rest)
  else
    match rest with
    | [] => throw (.before .endInString [])
    | '\\' :: [] => throw (.before .endInString [])
    | '\\' :: 'u' :: rest =>
      let (second, rest) ← readHex rest
      if second < 0xdc00 ∨ 0xdfff < second then throw (.before .loneSurrogate rest)
      else return (Char.ofNat ((first - 0xd800) * 0x400 + (second - 0xdc00) + 0x10000), rest)
    | '\\' :: rest => throw (.at .endInSurrogatePair rest)
    | _ => throw (.at .endInSurrogatePair rest)

/-- The character that a letter after a backslash stands for. -/
def shortEscape? : Char → Option Char
  | '"' => some '"'
  | '\\' => some '\\'
  | '/' => some '/'
  | 'b' => some '\x08'
  | 'f' => some '\x0c'
  | 'n' => some '\n'
  | 'r' => some '\r'
  | 't' => some '\t'
  | _ => none

/-- The character of an escape, after its backslash. -/
def readEscape : List Char → Except Stop (Char × List Char)
  | [] => .error (.before .endInString [])
  | 'u' :: rest => readCodePoint rest
  | c :: rest =>
    match shortEscape? c with
    | some escaped => .ok (escaped, rest)
    | none => .error (.at .invalidEscape (c :: rest))

/-- The characters of a string up to its closing quote, after those taken so far. -/
def readCharacters : Nat → List Char → List Char → Except Stop (String × List Char)
  | _, _, [] => .error (.before .endInString [])
  | 0, _, rest => .error (.before .endInString rest)
  | size + 1, taken, c :: rest =>
    if c = '"' then .ok (String.ofList taken.reverse, rest)
    else if c = '\\' then
      match readEscape rest with
      | .error stop => .error stop
      | .ok (escaped, rest) => readCharacters size (escaped :: taken) rest
    else if c.toNat < 0x20 then .error (.before .controlCharacter rest)
    else readCharacters size (c :: taken) rest

/-- A string after its opening quote. -/
def readText (size : Nat) (text : List Char) : Except Stop (String × List Char) :=
  readCharacters size [] text

/-! ## Numbers -/

/-- The largest significand that is read digit by digit. -/
def significandLimit : Nat := Nat.pow 2 64 - 1

/-- The largest power of ten that is read digit by digit. -/
def powerLimit : Nat := Nat.pow 2 31 - 1

/-- As many of the digits as fit below the limit, after those already read: the significand, how
many digits it took, and the digits that did not fit. -/
def takeDigits (significand : Nat) : List Char → Nat × Nat × List Char
  | [] => (significand, 0, [])
  | c :: digits =>
    let next := significand * 10 + digitValue c
    if next ≤ significandLimit then
      let (value, taken, left) := takeDigits next digits
      (value, taken + 1, left)
    else (significand, 0, c :: digits)

/-- The power that digits write, after those already read. When it gets too large, the text behind
the digit that made it so. -/
def readPower (power : Nat) : List Char → Except (List Char) (Nat × List Char)
  | [] => .ok (power, [])
  | c :: rest =>
    if c.isDigit then
      let next := power * 10 + digitValue c
      if next ≤ powerLimit then readPower next rest else .error rest
    else .ok (power, c :: rest)

/-- A double scaled by a power of ten in steps that each round; `none` when it gets too large. -/
def scaleTen : Nat → Binary64 → Int → Option Binary64
  | 0, value, _ => some value
  | steps + 1, value, power =>
    if power.natAbs ≤ 308 then
      let ten := Binary64.ofNat (Nat.pow 10 power.natAbs)
      if 0 ≤ power then
        let product := value.times ten
        if product.isInfinite then none else some product
      else some (value.dividedBy ten)
    else
      match value with
      | .finite _ 0 _ => some value
      | _ =>
        if 0 ≤ power then none
        else scaleTen steps (value.dividedBy (Binary64.ofNat (Nat.pow 10 308))) (power + 308)

/-- The double for a significand and a power of ten. -/
def readScaled (negative : Bool) (significand : Nat) (power : Int) (rest : List Char) :
    Except Stop (Json × List Char) :=
  match scaleTen 8 (Binary64.ofNat significand) power with
  | none => .error (.before .numberOutOfRange rest)
  | some value => .ok (.float (value.withSign negative), rest)

/-- A number from its exponent on, at the character after the letter. A power that gets too large
leaves zero as it is, and makes any other number too large or too small. -/
def readExponent (negative : Bool) (significand : Nat) (power : Int) (text : List Char) :
    Except Stop (Json × List Char) :=
  let (down, text) :=
    match text with
    | '+' :: rest => (false, rest)
    | '-' :: rest => (true, rest)
    | _ => (false, text)
  match text with
  | [] => .error (.before .endInValue [])
  | c :: _ =>
    if ¬ c.isDigit then .error (.at .invalidNumber text)
    else
      match readPower 0 text with
      | .ok (size, rest) =>
        readScaled negative significand (if down then power - size else power + size) rest
      | .error rest =>
        if significand ≠ 0 ∧ ¬ down then .error (.before .numberOutOfRange rest)
        else .ok (.float (.zero negative), rest.dropWhile Char.isDigit)

/-- A number from its fraction on, at the character after the point. -/
def readFraction (negative : Bool) (significand : Nat) (power : Int) (text : List Char) :
    Except Stop (Json × List Char) :=
  let (digits, rest) := text.span Char.isDigit
  match digits, rest with
  | [], [] => .error (.before .endInValue [])
  | [], _ => .error (.at .invalidNumber rest)
  | _, _ =>
    let (significand, taken, _) := takeDigits significand digits
    let power := power - taken
    match rest with
    | 'e' :: rest | 'E' :: rest => readExponent negative significand power rest
    | _ => readScaled negative significand power rest

/-- An integer as a value: outside the range of signed and unsigned words it becomes a double. -/
def integer (negative : Bool) (significand : Nat) : Json :=
  if ¬ negative then .int significand
  else if significand = 0 then .float (.zero true)
  else if significand ≤ Nat.pow 2 63 then .int (-(significand : Int))
  else .float ((Binary64.ofNat significand).withSign true)

/-- A number after its sign. -/
def readNumber (negative : Bool) (text : List Char) : Except Stop (Json × List Char) :=
  let (digits, rest) := text.span Char.isDigit
  match digits, text with
  | [], [] => .error (.before .endInValue [])
  | [], _ => .error (.at .invalidNumber text)
  | '0' :: _ :: _, _ :: rest => .error (.at .invalidNumber rest)
  | _, _ =>
    let (significand, _, left) := takeDigits 0 digits
    let power := (left.length : Int)
    match rest with
    | '.' :: rest => readFraction negative significand power rest
    | 'e' :: rest | 'E' :: rest => readExponent negative significand power rest
    | _ =>
      if left.isEmpty then .ok (integer negative significand, rest)
      else readScaled negative significand power rest

/-! ## All scalars -/

/-- A scalar, at its first character. -/
def readScalar (size : Nat) : List Char → Except Stop (Json × List Char)
  | [] => .error (.at .endInValue [])
  | 'n' :: rest => (readWord ['u', 'l', 'l'] rest).map fun rest => (.null, rest)
  | 't' :: rest => (readWord ['r', 'u', 'e'] rest).map fun rest => (.bool true, rest)
  | 'f' :: rest => (readWord ['a', 'l', 's', 'e'] rest).map fun rest => (.bool false, rest)
  | '-' :: rest => readNumber true rest
  | '"' :: rest => (readText size rest).map fun (text, rest) => (.string text, rest)
  | c :: rest =>
    if c.isDigit then readNumber false (c :: rest) else .error (.at .expectedValue (c :: rest))

end Json

end TraversalQuery
