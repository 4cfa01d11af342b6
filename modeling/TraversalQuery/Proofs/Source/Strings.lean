import TraversalQuery.Proofs.Source.Scanning

/-!
# Strings and their escapes

A character of a string is written as it is, or by a backslash and a letter, or by its code in four
hexadecimal digits. The end of a string and the characters that it writes are found apart from one
another. They agree: however each character of a text is written, the text between quotes is one
token, which stands for the text.
-/

namespace TraversalQuery

namespace Lexer

open Text (byteLength hexDigit? hexNumber?)

/-- The letters that stand for a character behind a backslash. -/
def shortEscapes : List (Char × Char) :=
  [('"', '"'), ('\\', '\\'), ('/', '/'), ('b', '\x08'), ('f', '\x0c'), ('n', '\n'), ('r', '\r'),
    ('t', '\t')]

/-- Whether a character is the hexadecimal digit of a number, in lower or upper case. -/
def IsHexDigit (value : Nat) (digit : Char) : Prop :=
  digit = Nat.digitChar value ∨ digit = (Nat.digitChar value).toUpper

/-- The ways to write a character in a string. -/
inductive Spells (c : Char) : List Char → Prop
  | raw (notQuote : c ≠ '"') (notBackslash : c ≠ '\\') (notFeed : c ≠ '\n') : Spells c [c]
  | short {letter : Char} (listed : (letter, c) ∈ shortEscapes) : Spells c ['\\', letter]
  | code {first second third fourth : Char} (basic : c.toNat < 0x10000)
      (isFirst : IsHexDigit (c.toNat / 0x1000) first)
      (isSecond : IsHexDigit (c.toNat / 0x100 % 0x10) second)
      (isThird : IsHexDigit (c.toNat / 0x10 % 0x10) third)
      (isFourth : IsHexDigit (c.toNat % 0x10) fourth) :
      Spells c ['\\', 'u', first, second, third, fourth]

/-- The ways to write a text in a string, each of its characters in one of the ways to write it. -/
inductive SpellsAll : List Char → List Char → Prop
  | nil : SpellsAll [] []
  | cons {c : Char} {unit text written : List Char} (first : Spells c unit)
      (rest : SpellsAll text written) : SpellsAll (c :: text) (unit ++ written)

/-- A string literal with the given text between its quotes. -/
def quoted (written : List Char) : String :=
  String.ofList ('"' :: (written ++ ['"']))

namespace IsHexDigit

variable {value : Nat} {digit : Char} (isDigit : IsHexDigit value digit) (small : value < 0x10)
include isDigit small

theorem hexDigit?_eq : hexDigit? digit = some value := by
  have every : ∀ value < 0x10, hexDigit? (Nat.digitChar value) = some value ∧
      hexDigit? (Nat.digitChar value).toUpper = some value := by decide
  rcases isDigit with rfl | rfl
  · exact (every value small).1
  · exact (every value small).2

/-- A hexadecimal digit is none of the characters that mean something in a string or an escape. -/
theorem ne_of_none {mark : Char} (none : hexDigit? mark = none) : digit ≠ mark := by
  rintro rfl
  rw [isDigit.hexDigit?_eq small] at none
  contradiction

end IsHexDigit

section Body

variable {c : Char} {rest : List Char}

/-- A character that is written as it is stands in the body of a string. -/
theorem stringBody_raw (notQuote : c ≠ '"') (notBackslash : c ≠ '\\') (notFeed : c ≠ '\n') :
    stringBody (c :: rest) = (c :: (stringBody rest).1, (stringBody rest).2) := by
  rw [stringBody]
  · exact notQuote
  · exact notFeed
  · exact fun same => absurd same notBackslash
  · exact fun _ _ same => absurd same notBackslash

/-- An escape does not end the body of a string. -/
theorem stringBody_escape (notFeed : c ≠ '\n') :
    stringBody ('\\' :: c :: rest) =
      ('\\' :: c :: (stringBody rest).1, (stringBody rest).2) := by
  rw [stringBody, if_neg notFeed]

/-- A written character is a part of the body of a string. -/
theorem Spells.stringBody {unit : List Char} (spells : Spells c unit) (more : List Char) :
    stringBody (unit ++ more) = (unit ++ (stringBody more).1, (stringBody more).2) := by
  cases spells with
  | raw notQuote notBackslash notFeed => exact stringBody_raw notQuote notBackslash notFeed
  | @short letter listed =>
    have every : ∀ entry ∈ shortEscapes, entry.1 ≠ '\n' := by decide
    exact stringBody_escape (every _ listed)
  | @code first second third fourth basic isFirst isSecond isThird isFourth =>
    have raw {value : Nat} {digit : Char} (isDigit : IsHexDigit value digit) (small : value < 0x10)
        (rest : List Char) :
        Lexer.stringBody (digit :: rest) =
          (digit :: (Lexer.stringBody rest).1, (Lexer.stringBody rest).2) :=
      stringBody_raw (isDigit.ne_of_none small rfl) (isDigit.ne_of_none small rfl)
        (isDigit.ne_of_none small rfl)
    simp only [List.cons_append, List.nil_append]
    rw [stringBody_escape (by decide), raw isFirst (by omega), raw isSecond (by omega),
      raw isThird (by omega), raw isFourth (by omega)]

end Body

section Value

variable {c : Char} {rest : List Char}

/-- A character that is written as it is stands for itself. -/
theorem unescape?_raw (notBackslash : c ≠ '\\') :
    unescape? (c :: rest) = (unescape? rest).map (c :: ·) := by
  rw [unescape?]
  · cases unescape? rest <;> rfl
  · exact fun _ _ _ _ _ same => absurd same notBackslash
  · exact fun same => absurd same notBackslash
  · exact fun _ _ same => absurd same notBackslash

/-- A short escape stands for its character. -/
theorem unescape?_short {letter : Char} (listed : (letter, c) ∈ shortEscapes) :
    unescape? ('\\' :: letter :: rest) = (unescape? rest).map (c :: ·) := by
  have every : ∀ entry ∈ shortEscapes,
      entry.1 ≠ 'u' ∧ shortEscape? entry.1 = some entry.2 := by decide
  obtain ⟨noCode, stands⟩ := every _ listed
  rw [unescape?, stands]
  · cases unescape? rest <;> rfl
  · exact fun _ _ _ _ _ same => absurd same noCode

/-- The four digits of a code write its character. -/
theorem codePoint?_eq {first second third fourth : Char} (basic : c.toNat < 0x10000)
    (isFirst : IsHexDigit (c.toNat / 0x1000) first)
    (isSecond : IsHexDigit (c.toNat / 0x100 % 0x10) second)
    (isThird : IsHexDigit (c.toNat / 0x10 % 0x10) third)
    (isFourth : IsHexDigit (c.toNat % 0x10) fourth) :
    codePoint? first second third fourth = some c := by
  have number : hexNumber? [first, second, third, fourth] = some c.toNat := by
    rw [hexNumber?]
    simp only [List.foldlM_cons, List.foldlM_nil, isFirst.hexDigit?_eq (by omega),
      isSecond.hexDigit?_eq (by omega), isThird.hexDigit?_eq (by omega),
      isFourth.hexDigit?_eq (by omega), Option.map_some, Option.bind_eq_bind, Option.bind_some,
      Option.pure_def, Option.some.injEq]
    omega
  have valid : c.toNat < 0xd800 ∨ 0xdfff < c.toNat := by
    rcases c.valid with low | high
    · exact .inl low
    · exact .inr high.1
  have plus : first ≠ '+' := isFirst.ne_of_none (by omega) rfl
  rw [codePoint?, if_neg plus, number]
  simp only [Option.bind_eq_bind, Option.bind_some, Char.ofNat_toNat]
  rw [if_neg (by omega)]

/-- A written character counts as that character in the value of a string. -/
theorem Spells.unescape? {unit : List Char} (spells : Spells c unit) (more : List Char) :
    unescape? (unit ++ more) = (unescape? more).map (c :: ·) := by
  cases spells with
  | raw _ notBackslash _ => exact unescape?_raw notBackslash
  | short listed => exact unescape?_short listed
  | @code first second third fourth basic isFirst isSecond isThird isFourth =>
    simp only [List.cons_append, List.nil_append]
    rw [Lexer.unescape?, codePoint?_eq basic isFirst isSecond isThird isFourth]
    cases Lexer.unescape? more <;> rfl

end Value

section Literal

variable {text written : List Char}

/-- The string ends where the text does that was written into it. -/
theorem SpellsAll.stringBody (spells : SpellsAll text written) (after : List Char) :
    stringBody (written ++ '"' :: after) = (written, some after) := by
  induction spells with
  | nil => rfl
  | cons first _ ih => rw [List.append_assoc, first.stringBody, ih]

/-- What spells a text stands for it. -/
theorem SpellsAll.unescape? (spells : SpellsAll text written) : unescape? written = some text := by
  induction spells with
  | nil => rfl
  | cons first _ ih => rw [first.unescape?, ih, Option.map_some]

/-- What is written into a string does not look like the rest of the quotes of a block string. -/
theorem SpellsAll.ne_quotes (spells : SpellsAll text written) (more : List Char) :
    written ++ ['"'] ≠ '"' :: '"' :: more := by
  cases spells with
  | nil => exact fun same => List.cons_ne_nil _ _ (List.cons.inj same).2.symm
  | cons first _ =>
    cases first with
    | raw notQuote => exact fun same => notQuote (List.cons.inj same).1
    | short => exact fun same => absurd (List.cons.inj same).1 (by decide)
    | code => exact fun same => absurd (List.cons.inj same).1 (by decide)

end Literal

/-- **However a text is written in a string, it is read back.** When each character of a text is
written as it is (but for quotes, backslashes and line feeds), by its short escape, or by its code
in four hexadecimal digits of either case, then the literal is a single token. It stands for the
text, and its span is that of the whole literal. -/
theorem tokens_quoted {text : String} {written : List Char}
    (spells : SpellsAll text.toList written) :
    tokens (quoted written) =
      .ok [⟨.string text, .ofRange 0 (quoted written).utf8ByteSize⟩] := by
  have whole : (quoted written).toList = '"' :: (written ++ ['"']) := String.toList_ofList
  have found : lexeme '"' (written ++ ['"']) =
      ⟨'"' :: written ++ ['"'], some (.string text), []⟩ := by
    rw [lexeme_quote spells.ne_quotes, stringLexeme, spells.stringBody]
    dsimp only
    rw [spells.unescape?, Option.map_some, String.ofList_toList]
  have scans := @Scans.token 0 0 ('"' :: (written ++ ['"'])) _ _ _ _ rfl
    (congrArg Lexeme.kind? found) (by rw [found]; exact .done rfl)
  rw [tokens_eq_ok_iff, whole, utf8ByteSize_eq, whole]
  rw [found, Nat.zero_add] at scans
  exact scans

/-- A text with a short escape, a code in each case of digits, and characters of several widths as
they are. -/
theorem tokens_quoted_mixed :
    let written := "\\\"\\u004a\\u00E9\\n😀".toList
    SpellsAll "\"J\u00e9\n😀".toList written ∧
      tokens (quoted written) = .ok [⟨.string "\"J\u00e9\n😀", ⟨0, 22⟩⟩] := by
  intro written
  have spells : SpellsAll "\"J\u00e9\n😀".toList written :=
    .cons (.short (by decide)) <|
      .cons (.code (by decide) (.inl rfl) (.inl rfl) (.inl rfl) (.inl rfl)) <|
        .cons (.code (by decide) (.inl rfl) (.inl rfl) (.inr rfl) (.inl rfl)) <|
          .cons (.short (by decide)) <| .cons (.raw (by decide) (by decide) (by decide)) .nil
  exact ⟨spells, tokens_quoted spells⟩

end Lexer

end TraversalQuery
