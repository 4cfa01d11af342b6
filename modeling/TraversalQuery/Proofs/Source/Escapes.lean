import TraversalQuery.Proofs.Source.Arrivals
import TraversalQuery.Proofs.Source.Strings

/-!
# Which escapes are read

Any character may follow a backslash as far as the end of a string is concerned. Whether the string
is one is decided when its escapes are read: those of the language are, and besides them a code that
has a plus sign in the place of its first digit. A string with any other escape is refused as a
whole.
-/

namespace TraversalQuery

namespace Lexer

open Text (byteLength hexDigit? hexNumber?)

/-- What can stand between the quotes of a string: characters other than quotes, backslashes and
line feeds, and pairs of a backslash and any character but a line feed. -/
inductive StringText : List Char → Prop
  | nil : StringText []
  | raw {c : Char} {rest : List Char} (notQuote : c ≠ '"') (notBackslash : c ≠ '\\')
      (notFeed : c ≠ '\n') (others : StringText rest) : StringText (c :: rest)
  | pair {c : Char} {rest : List Char} (notFeed : c ≠ '\n') (others : StringText rest) :
      StringText ('\\' :: c :: rest)

/-- What is read as a character in a string: a way to write the character, or its code with a plus
sign before three digits. -/
inductive ReadAs (c : Char) : List Char → Prop
  | spelled {unit : List Char} (spells : Spells c unit) : ReadAs c unit
  | signed {second third fourth : Char} (small : c.toNat < 0x1000)
      (isSecond : IsHexDigit (c.toNat / 0x100) second)
      (isThird : IsHexDigit (c.toNat / 0x10 % 0x10) third)
      (isFourth : IsHexDigit (c.toNat % 0x10) fourth) :
      ReadAs c ['\\', 'u', '+', second, third, fourth]

/-- What is read as a text in a string, one character after another. -/
inductive ReadsAs : List Char → List Char → Prop
  | nil : ReadsAs [] []
  | cons {c : Char} {unit text written : List Char} (first : ReadAs c unit)
      (rest : ReadsAs text written) : ReadsAs (c :: text) (unit ++ written)

/-- The string with a text between its quotes stands in a source, and these are the bytes it takes
there. -/
def StringAt (source : String) (span : Span) (written : List Char) : Prop :=
  ∃ before after, source.toList = before ++ (quoted written).toList ++ after ∧
    span = .ofRange (byteLength before) (byteLength before + (quoted written).utf8ByteSize)

/-! ### The end of a string -/

/-- The first quote that belongs to no backslash ends a string. -/
theorem stringBody_eq_iff {text body after : List Char} :
    stringBody text = (body, some after) ↔ StringText body ∧ text = body ++ '"' :: after := by
  constructor
  · intro closed
    refine ⟨?_, (stringBody_closed closed).1.symm⟩
    fun_induction stringBody text generalizing body after with
    | case1 | case3 | case4 | case5 => cases closed
    | case2 =>
      cases closed
      exact .nil
    | case6 c rest unbroken inner end? ran ih =>
      obtain ⟨rfl, rfl⟩ := Prod.mk.inj closed
      exact .pair unbroken (ih ran)
    | case7 c rest noQuote unbroken notLast noEscape inner end? ran ih =>
      obtain ⟨rfl, rfl⟩ := Prod.mk.inj closed
      exact .raw noQuote (ne_of_followed notLast noEscape) unbroken (ih ran)
  · rintro ⟨formed, rfl⟩
    induction formed with
    | nil => rfl
    | raw notQuote notBackslash notFeed _ ih =>
      rw [List.cons_append, stringBody_raw notQuote notBackslash notFeed, ih]
    | pair notFeed _ ih =>
      rw [List.cons_append, List.cons_append, stringBody_escape notFeed, ih]

/-! ### The value of a string -/

section Digits

variable {value : Nat} {digit : Char}

/-- What is read as a hexadecimal digit is one. -/
theorem isHexDigit_of_hexDigit? (read : hexDigit? digit = some value) :
    value < 0x10 ∧ IsHexDigit value digit := by
  have low : digit.toNat < 0x80 := by
    unfold hexDigit? at read
    simp only [Char.le_def, UInt32.le_iff_toNat_le] at read
    change (if _ ∧ digit.toNat ≤ 57 then _ else if _ ∧ digit.toNat ≤ 102 then _
      else if _ ∧ digit.toNat ≤ 70 then _ else _) = _ at read
    grind
  have every : ∀ code < 0x80, ∀ value ∈ hexDigit? (Char.ofNat code),
      value < 0x10 ∧ (Char.ofNat code = Nat.digitChar value ∨
        Char.ofNat code = (Nat.digitChar value).toUpper) := by decide +kernel
  rw [← Char.ofNat_toNat digit] at read ⊢
  exact every _ low value read

/-- The last digit of a number. -/
theorem of_hexNumber?_append (digits : List Char)
    (read : hexNumber? (digits ++ [digit]) = some value) :
    hexNumber? digits = some (value / 0x10) ∧ IsHexDigit (value % 0x10) digit := by
  rw [hexNumber?, List.foldlM_append] at read
  simp only [List.foldlM_cons, List.foldlM_nil, bind_pure] at read
  obtain ⟨before, first, read⟩ := Option.bind_eq_some_iff.mp read
  obtain ⟨last, isLast, rfl⟩ := Option.map_eq_some_iff.mp read
  obtain ⟨small, isDigit⟩ := isHexDigit_of_hexDigit? isLast
  have quotient : (before * 0x10 + last) / 0x10 = before := by omega
  have remainder : (before * 0x10 + last) % 0x10 = last := by omega
  exact ⟨by rw [quotient]; exact first, by rw [remainder]; exact isDigit⟩

/-- A number of three hexadecimal digits is read from its digits. -/
theorem of_hexNumber?_three {first second third : Char}
    (read : hexNumber? [first, second, third] = some value) :
    value < 0x1000 ∧ IsHexDigit (value / 0x100) first ∧ IsHexDigit (value / 0x10 % 0x10) second ∧
      IsHexDigit (value % 0x10) third := by
  obtain ⟨read, isThird⟩ := of_hexNumber?_append [first, second] read
  obtain ⟨read, isSecond⟩ := of_hexNumber?_append [first] read
  obtain ⟨read, isFirst⟩ := of_hexNumber?_append [] read
  have none : 0 = value / 0x10 / 0x10 / 0x10 := Option.some.inj read
  have small : value < 0x1000 := by omega
  have same : value / 0x10 / 0x10 % 0x10 = value / 0x100 := by omega
  exact ⟨small, same ▸ isFirst, isSecond, isThird⟩

/-- A number of four hexadecimal digits is read from its digits. -/
theorem of_hexNumber?_four {first second third fourth : Char}
    (read : hexNumber? [first, second, third, fourth] = some value) :
    value < 0x10000 ∧ IsHexDigit (value / 0x1000) first ∧
      IsHexDigit (value / 0x100 % 0x10) second ∧ IsHexDigit (value / 0x10 % 0x10) third ∧
        IsHexDigit (value % 0x10) fourth := by
  obtain ⟨read, isFourth⟩ := of_hexNumber?_append [first, second, third] read
  obtain ⟨small, isFirst, isSecond, isThird⟩ := of_hexNumber?_three read
  rw [Nat.div_div_eq_div_mul] at isFirst isSecond
  exact ⟨by omega, isFirst, isSecond, isThird, isFourth⟩

end Digits

section Value

variable {c : Char}

/-- A number that is no surrogate is the code of its character. -/
theorem toNat_of_code {value : Nat} (basic : value < 0x10000)
    (free : ¬(0xd800 ≤ value ∧ value ≤ 0xdfff)) : (Char.ofNat value).toNat = value := by
  have valid : value.isValidChar := by
    have : value < 0xd800 ∨ 0xdfff < value := by omega
    exact this.imp id fun high => ⟨high, by omega⟩
  rw [Char.ofNat, dif_pos valid]
  rfl

/-- Four characters are read as the code of a character when they are its digits, or a plus sign and
three digits. -/
theorem readAs_of_codePoint? {first second third fourth : Char}
    (read : codePoint? first second third fourth = some c) :
    ReadAs c ['\\', 'u', first, second, third, fourth] := by
  by_cases plus : first = '+'
  · rw [codePoint?, if_pos plus] at read
    obtain ⟨value, number, read⟩ := Option.bind_eq_some_iff.mp read
    obtain ⟨free, same⟩ := Option.ite_none_left_eq_some.mp read
    obtain rfl := Option.some.inj same
    obtain ⟨small, digits⟩ := of_hexNumber?_three number
    have code := toNat_of_code (by omega) free
    rw [← code] at small digits
    subst plus
    exact .signed small digits.1 digits.2.1 digits.2.2
  · rw [codePoint?, if_neg plus] at read
    obtain ⟨value, number, read⟩ := Option.bind_eq_some_iff.mp read
    obtain ⟨free, same⟩ := Option.ite_none_left_eq_some.mp read
    obtain rfl := Option.some.inj same
    obtain ⟨small, digits⟩ := of_hexNumber?_four number
    have code := toNat_of_code small free
    rw [← code] at small digits
    exact .spelled (.code small digits.1 digits.2.1 digits.2.2.1 digits.2.2.2)

/-- The letters of short escapes are those that are listed. -/
theorem mem_shortEscapes {letter : Char} (read : shortEscape? letter = some c) :
    (letter, c) ∈ shortEscapes := by
  unfold shortEscape? at read
  split at read
  all_goals first
    | (cases read; decide)
    | contradiction

/-- Three digits after a plus sign are read as the code of a character. -/
theorem codePoint?_signed {second third fourth : Char} (small : c.toNat < 0x1000)
    (isSecond : IsHexDigit (c.toNat / 0x100) second)
    (isThird : IsHexDigit (c.toNat / 0x10 % 0x10) third)
    (isFourth : IsHexDigit (c.toNat % 0x10) fourth) :
    codePoint? '+' second third fourth = some c := by
  have number : hexNumber? [second, third, fourth] = some c.toNat := by
    rw [hexNumber?]
    simp only [List.foldlM_cons, List.foldlM_nil, isSecond.hexDigit?_eq (by omega),
      isThird.hexDigit?_eq (by omega), isFourth.hexDigit?_eq (by omega), Option.map_some,
      Option.bind_eq_bind, Option.bind_some, Option.pure_def, Option.some.injEq]
    omega
  rw [codePoint?, if_pos rfl, number]
  simp only [Option.bind_eq_bind, Option.bind_some, Char.ofNat_toNat]
  rw [if_neg (by omega)]

/-- What is read as a character in a string counts as that character in its value. -/
theorem ReadAs.unescape? {unit : List Char} (read : ReadAs c unit) (more : List Char) :
    unescape? (unit ++ more) = (unescape? more).map (c :: ·) := by
  cases read with
  | spelled spells => exact spells.unescape? more
  | signed small isSecond isThird isFourth =>
    simp only [List.cons_append, List.nil_append]
    rw [Lexer.unescape?, codePoint?_signed small isSecond isThird isFourth]
    cases Lexer.unescape? more <;> rfl

/-- What follows a character that is written as it is, is well formed if the whole is. -/
theorem StringText.of_cons {rest : List Char} (formed : StringText (c :: rest))
    (plain : c ≠ '\\') : StringText rest := by
  cases formed with
  | raw _ _ _ others => exact others
  | pair => contradiction

/-- No digit of a code is a backslash. -/
theorem StringText.of_code {first second third fourth : Char} {rest : List Char}
    (formed : StringText ('\\' :: 'u' :: first :: second :: third :: fourth :: rest))
    (read : ReadAs c ['\\', 'u', first, second, third, fourth]) : StringText rest := by
  have plain {value : Nat} {digit : Char} (isDigit : IsHexDigit value digit)
      (small : value < 0x10) : digit ≠ '\\' :=
    isDigit.ne_of_none small rfl
  cases formed with
  | raw _ notBackslash => contradiction
  | pair _ others =>
    cases read with
    | spelled spells =>
      cases spells with
      | code basic isFirst isSecond isThird isFourth =>
        exact (((others.of_cons (plain isFirst (by omega))).of_cons
          (plain isSecond (by omega))).of_cons (plain isThird (by omega))).of_cons
            (plain isFourth (by omega))
    | signed small isSecond isThird isFourth =>
      exact (((others.of_cons (by decide)).of_cons (plain isSecond (by omega))).of_cons
        (plain isThird (by omega))).of_cons (plain isFourth (by omega))

/-- Of what can stand in a string, only what is read as a text has a value. -/
theorem readsAs_of_unescape? {written text : List Char} (formed : StringText written)
    (read : Lexer.unescape? written = some text) : ReadsAs text written := by
  fun_induction Lexer.unescape? written generalizing text with
  | case1 =>
    cases read
    exact .nil
  | case2 first second third fourth rest ih =>
    obtain ⟨c, code, read⟩ := Option.bind_eq_some_iff.mp read
    obtain ⟨others, later, same⟩ := Option.bind_eq_some_iff.mp read
    obtain rfl := Option.some.inj same
    have isCode := readAs_of_codePoint? code
    exact .cons isCode (ih (formed.of_code isCode) later)
  | case3 => contradiction
  | case4 letter rest _ ih =>
    obtain ⟨c, short, read⟩ := Option.bind_eq_some_iff.mp read
    obtain ⟨others, later, same⟩ := Option.bind_eq_some_iff.mp read
    obtain rfl := Option.some.inj same
    cases formed with
    | raw _ notBackslash => contradiction
    | pair _ formed => exact .cons (.spelled (.short (mem_shortEscapes short))) (ih formed later)
  | case5 c rest _ notLast notPaired ih =>
    obtain ⟨others, later, same⟩ := Option.bind_eq_some_iff.mp read
    obtain rfl := Option.some.inj same
    have plain : c ≠ '\\' := ne_of_followed notLast notPaired
    cases formed with
    | raw notQuote notBackslash notFeed formed =>
      exact .cons (.spelled (.raw notQuote notBackslash notFeed)) (ih formed later)
    | pair => contradiction

/-- What can stand in a string has a value just when it is read as one. -/
theorem unescape?_eq_some_iff {written text : List Char} (formed : StringText written) :
    Lexer.unescape? written = some text ↔ ReadsAs text written := by
  refine ⟨readsAs_of_unescape? formed, fun reads => ?_⟩
  clear formed
  induction reads with
  | nil => rfl
  | cons first _ ih => rw [first.unescape?, ih, Option.map_some]

end Value

/-! ### Literals -/

/-- A token of a string takes its quotes and the text between them, which is read as its value. -/
theorem of_lexeme_string {c : Char} {rest : List Char} {text : String}
    (formed : (lexeme c rest).kind? = some (.string text)) :
    ∃ written after, c :: rest = (quoted written).toList ++ after ∧
      (lexeme c rest).taken = (quoted written).toList ∧ ReadsAs text.toList written := by
  cases forms_lexeme formed with
  | @string _ quote read formed =>
    unfold stringLexeme at formed read
    split at formed
    · rename_i written after closed
      obtain ⟨value, reads, same⟩ := Option.map_eq_some_iff.mp formed
      obtain rfl := TokenKind.string.inj same
      obtain ⟨isText, rfl⟩ := stringBody_eq_iff.mp closed
      rw [closed] at read
      refine ⟨written, after, ?_, by rw [read, quoted, String.toList_ofList]; rfl, ?_⟩
      · simp [quote, quoted]
      · rw [String.toList_ofList]
        exact (unescape?_eq_some_iff isText).mp reads
    · contradiction

/-- A string literal with a text that is not read as any is malformed as a whole. -/
theorem malformed_of_not_readsAs {written : List Char} (start : Nat) (after : List Char)
    (formed : StringText written) (unread : ¬∃ text, ReadsAs text written) :
    (lexeme '"' (written ++ '"' :: after)).kind? = none ∧
      malformed start (lexeme '"' (written ++ '"' :: after)) =
        ⟨.unexpectedCharacters (quoted written),
          .ofRange start (start + (quoted written).utf8ByteSize)⟩ := by
  have single : ∀ more, written ++ '"' :: after ≠ '"' :: '"' :: more := by
    intro more same
    cases formed with
    | nil => exact unread ⟨[], .nil⟩
    | raw notQuote => exact notQuote (List.cons.inj same).1
    | pair => exact absurd (List.cons.inj same).1 (by decide)
  have refused : unescape? written = none := by
    rw [Option.eq_none_iff_forall_ne_some]
    exact fun text reads => unread ⟨text, (unescape?_eq_some_iff formed).mp reads⟩
  have found : lexeme '"' (written ++ '"' :: after) = ⟨'"' :: written ++ ['"'], none, after⟩ := by
    rw [lexeme_quote single, stringLexeme, stringBody_eq_iff.mpr ⟨formed, rfl⟩]
    dsimp only
    rw [refused, Option.map_none]
  rw [found, malformed, quoted, utf8ByteSize_ofList]
  exact ⟨rfl, rfl⟩

/-- **Which strings are read.** A token of a string stands for a text between quotes in the source.
That text consists of characters as they are, of the escapes of the language, and of codes with a
plus sign and three digits; it is read as the value of the token. A literal that lexing arrives at
and whose text consists of anything else is where lexing fails. -/
theorem strings_read_or_refused (source : String) :
    (∀ found text span, tokens source = .ok found → ⟨.string text, span⟩ ∈ found →
      ∃ written, StringAt source span written ∧ ReadsAs text.toList written) ∧
    ∀ start written after, Arrives 0 source.toList start '"' (written ++ '"' :: after) →
      StringText written → (¬∃ text, ReadsAs text written) →
        tokens source = .error ⟨.unexpectedCharacters (quoted written),
          .ofRange start (start + (quoted written).utf8ByteSize)⟩ := by
  constructor
  · intro found text span read member
    obtain ⟨before, c, rest, whole, formed, place⟩ :=
      (tokens_eq_ok_iff.mp read).exists_lexeme member
    obtain ⟨written, after, literal, taken, reads⟩ := of_lexeme_string formed
    refine ⟨written, ⟨before, after, ?_, ?_⟩, reads⟩
    · rw [whole, literal, List.append_assoc]
    · rw [utf8ByteSize_eq, ← taken, ← Nat.zero_add (byteLength before)]
      exact place
  · intro start written after arrives formed unread
    obtain ⟨broken, error⟩ := malformed_of_not_readsAs start after formed unread
    exact tokens_eq_error_iff.mpr ⟨start, '"', _, arrives, broken, error.symm⟩

/-- No text of a string is written with a plus sign as the first digit of a code. -/
theorem not_spellsAll_signed (text rest : List Char) :
    ¬SpellsAll text ('\\' :: 'u' :: '+' :: rest) := by
  intro spells
  generalize same : '\\' :: 'u' :: '+' :: rest = written at spells
  cases spells with
  | nil => cases same
  | cons first others =>
    cases first with
    | raw _ notBackslash => exact notBackslash (List.cons.inj same).1.symm
    | @short letter listed =>
      have noCode : ∀ entry ∈ shortEscapes, entry.1 ≠ 'u' := by decide
      exact noCode _ listed (List.cons.inj (List.cons.inj same).2).1.symm
    | @code first _ _ _ basic isFirst =>
      have plus : '+' = first := (List.cons.inj (List.cons.inj (List.cons.inj same).2).2).1
      exact isFirst.ne_of_none (by omega) rfl plus.symm

/-- A code with a plus sign in the place of its first digit is no escape of the language, but it is
read as a character. -/
theorem signed_code_is_read :
    let source := "\"\\u+041\""
    let written := "\\u+041".toList
    tokens source = .ok [⟨.string "A", ⟨0, 8⟩⟩] ∧ StringAt source ⟨0, 8⟩ written ∧
      ¬∃ text, SpellsAll text written := by
  intro source written
  have read : tokens source = .ok [⟨.string "A", ⟨0, 8⟩⟩] := by decide +kernel
  have stands : StringAt source ⟨0, 8⟩ written :=
    ⟨[], [], by decide +kernel, by decide +kernel⟩
  exact ⟨read, stands, fun ⟨text, spells⟩ => not_spellsAll_signed text _ spells⟩

/-- A source with a string whose escapes are read, and one in which lexing stops at a code of three
digits. -/
theorem strings_read_or_refused_codes :
    (tokens "a \"\\u00e9\"" = .ok [⟨.name "a", ⟨0, 1⟩⟩, ⟨.string "\u00e9", ⟨2, 10⟩⟩] ∧
      ∃ written, StringAt "a \"\\u00e9\"" ⟨2, 10⟩ written ∧
        ReadsAs "\u00e9".toList written) ∧
    tokens "a \"\\u041\"" = .error ⟨.unexpectedCharacters "\"\\u041\"", ⟨2, 9⟩⟩ := by
  have read : tokens "a \"\\u00e9\"" =
      .ok [⟨.name "a", ⟨0, 1⟩⟩, ⟨.string "\u00e9", ⟨2, 10⟩⟩] := by
    decide +kernel
  refine ⟨⟨read, (strings_read_or_refused _).1 _ _ _ read (by simp)⟩, ?_⟩
  have formed : StringText "\\u041".toList :=
    .pair (by decide) <| .raw (by decide) (by decide) (by decide) <|
      .raw (by decide) (by decide) (by decide) <| .raw (by decide) (by decide) (by decide) .nil
  have unread : ¬∃ text, ReadsAs text "\\u041".toList := by
    rintro ⟨text, reads⟩
    cases (unescape?_eq_some_iff formed).mpr reads
  have arrives : Arrives 0 "a \"\\u041\"".toList 2 '"' ("\\u041".toList ++ ['"']) :=
    .later rfl rfl (.here rfl)
  exact (strings_read_or_refused _).2 2 _ [] arrives formed unread

end Lexer

end TraversalQuery
