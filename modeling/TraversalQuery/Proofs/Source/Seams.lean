import Mathlib.Data.List.TakeDrop
import Mathlib.Data.List.TakeWhile
import TraversalQuery.Proofs.Source.Lexemes

/-!
# Lexemes before a line break

No lexeme but a block string goes beyond its line, and a block string ends with its quotes. So a
lexeme that stands in a text stands there as well when a line break and more text come after it.
-/

namespace TraversalQuery

namespace Lexer

open Text (byteLength)

/-- A way of cutting a text in two, with the cut before any line break that comes after the text. -/
structure Cuts (part : List Char → List Char × List Char) : Prop where
  whole : ∀ text, (part text).1 ++ (part text).2 = text
  seam : ∀ text more, part (text ++ '\n' :: more) = ((part text).1, (part text).2 ++ '\n' :: more)

/-- A span that stops at line feeds is cut off alike before one. -/
theorem cuts_span {goesOn : Char → Bool} (stops : goesOn '\n' = false) :
    Cuts fun text => text.span goesOn where
  whole := by
    intro text
    rw [List.span_eq_takeWhile_dropWhile]
    exact List.takeWhile_append_dropWhile
  seam := by
    intro text more
    simp only [List.span_eq_takeWhile_dropWhile]
    induction text with
    | nil => simp [stops]
    | cons c rest ih =>
      cases goes : goesOn c with
      | false => simp [goes]
      | true =>
        obtain ⟨taken, left⟩ := Prod.mk.inj ih
        simp [goes, taken, left]

/-- Digits are cut off alike before a line feed. -/
theorem cuts_digits : Cuts fun text => text.span Char.isDigit :=
  cuts_span (by decide)

theorem wholePart_of_ne {c : Char} (other : c ≠ '0') (rest : List Char) :
    wholePart (c :: rest) = (c :: rest).span Char.isDigit := by
  unfold wholePart
  split
  · rename_i same
    exact absurd (List.cons.inj same).1 other
  · rfl

/-- The whole part of a number is cut off alike before a line feed. -/
theorem cuts_wholePart : Cuts wholePart where
  whole := by
    intro text
    unfold wholePart
    split
    · rfl
    · exact cuts_digits.whole _
  seam := by
    intro text more
    cases text with
    | nil => exact cuts_digits.seam [] more
    | cons c rest =>
      by_cases zero : c = '0'
      · rw [zero]
        rfl
      · rw [List.cons_append, wholePart_of_ne zero, wholePart_of_ne zero]
        exact cuts_digits.seam (c :: rest) more

theorem fractionPart_of_ne {c : Char} (other : c ≠ '.') (rest : List Char) :
    fractionPart (c :: rest) = ([], c :: rest) := by
  unfold fractionPart
  split
  · rename_i same
    exact absurd (List.cons.inj same).1 other
  · rfl

/-- The fraction of a number is cut off alike before a line feed. -/
theorem cuts_fractionPart : Cuts fractionPart where
  whole := by
    intro text
    unfold fractionPart
    split
    · split
      · dsimp only
        rw [List.cons_append, cuts_digits.whole]
      · rfl
    · rfl
  seam := by
    intro text more
    cases text with
    | nil => exact fractionPart_of_ne (by decide) more
    | cons c rest =>
      by_cases point : c = '.'
      · subst point
        cases rest with
        | nil => rfl
        | cons d rest =>
          rw [List.cons_append, List.cons_append, fractionPart, fractionPart, ← List.cons_append,
            cuts_digits.seam]
          split <;> rfl
      · rw [List.cons_append, fractionPart_of_ne point, fractionPart_of_ne point]
        rfl

/-- The sign of an exponent is cut off alike before a line feed. -/
theorem cuts_signPart : Cuts signPart where
  whole := by
    intro text
    unfold signPart
    split <;> rfl
  seam := by
    intro text more
    cases text with
    | nil => rfl
    | cons c rest =>
      by_cases plus : c = '+'
      · rw [plus]
        rfl
      · by_cases minus : c = '-'
        · rw [minus]
          rfl
        · have other (text : List Char) : signPart (c :: text) = ([], c :: text) := by
            unfold signPart
            split <;> simp_all
          rw [List.cons_append, other, other]
          rfl

/-- The exponent of a number is cut off alike before a line feed. -/
theorem cuts_exponentPart : Cuts exponentPart where
  whole := by
    intro text
    cases text with
    | nil => rfl
    | cons c rest =>
      rw [exponentPart]
      split
      · dsimp only
        split
        · rfl
        · rw [List.cons_append, List.cons_append, List.append_assoc, cuts_digits.whole,
            cuts_signPart.whole]
      · rfl
  seam := by
    intro text more
    cases text with
    | nil => rfl
    | cons c rest =>
      rw [List.cons_append, exponentPart, exponentPart, cuts_signPart.seam]
      dsimp only
      rw [cuts_digits.seam]
      split
      · split <;> rfl
      · rfl

/-- A number is cut off where its text ends or its line does. -/
theorem numberLexeme_seam (sign text more : List Char) :
    numberLexeme sign (text ++ '\n' :: more) =
      { numberLexeme sign text with rest := (numberLexeme sign text).rest ++ '\n' :: more } := by
  simp only [numberLexeme, cuts_wholePart.seam, cuts_fractionPart.seam, cuts_exponentPart.seam]
  split <;> rfl

/-- A number takes a sign and digits, among them its whole part. -/
theorem numberLexeme_whole (sign text : List Char) :
    ∃ digits, (numberLexeme sign text).taken = sign ++ digits ∧
      digits ++ (numberLexeme sign text).rest = text ∧ (wholePart text).1 <+: digits := by
  have whole := cuts_wholePart.whole text
  have fraction := cuts_fractionPart.whole (wholePart text).2
  have exponent := cuts_exponentPart.whole (fractionPart (wholePart text).2).2
  unfold numberLexeme
  dsimp only
  split
  · rename_i plain
    obtain ⟨noFraction, noExponent⟩ := plain
    rw [List.isEmpty_iff.mp noExponent, List.nil_append] at exponent
    rw [List.isEmpty_iff.mp noFraction, List.nil_append, ← exponent] at fraction
    exact ⟨_, rfl, by rw [fraction, whole], List.prefix_rfl⟩
  · refine ⟨_, by rw [List.append_assoc, List.append_assoc], ?_, List.prefix_append _ _⟩
    rw [List.append_assoc, List.append_assoc, exponent, fraction, whole]

/-- A character is no mark if it is not one as the last of a text and not one before others. -/
theorem ne_of_followed {mark c : Char} {rest : List Char} (notLast : c = mark → rest = [] → False)
    (notFollowed : ∀ d others, c = mark → rest = d :: others → False) : c ≠ mark := by
  intro same
  cases rest with
  | nil => exact notLast same rfl
  | cons d others => exact notFollowed d others same rfl

/-- A string that is closed in its text is the same when more text comes after it. -/
theorem stringBody_closed {text body after : List Char}
    (closed : stringBody text = (body, some after)) :
    body ++ '"' :: after = text ∧
      ∀ more, stringBody (text ++ more) = (body, some (after ++ more)) := by
  fun_induction stringBody text generalizing body after with
  | case1 => cases closed
  | case2 rest =>
    cases closed
    exact ⟨rfl, fun _ => rfl⟩
  | case3 => cases closed
  | case4 => cases closed
  | case5 => cases closed
  | case6 c rest unbroken inner end? ran ih =>
    obtain ⟨rfl, rfl⟩ := Prod.mk.inj closed
    obtain ⟨whole, seam⟩ := ih ran
    refine ⟨congrArg ('\\' :: c :: ·) whole, fun more => ?_⟩
    simp [stringBody, unbroken, seam]
  | case7 c rest noQuote unbroken notLast noEscape inner end? ran ih =>
    obtain ⟨rfl, rfl⟩ := Prod.mk.inj closed
    obtain ⟨whole, seam⟩ := ih ran
    refine ⟨congrArg (c :: ·) whole, fun more => ?_⟩
    have plain : c ≠ '\\' := ne_of_followed notLast noEscape
    simp [stringBody, plain, seam]

/-- A block string that is closed in its text is the same when more text comes after it. -/
theorem blockBody_closed {text body after : List Char}
    (closed : blockBody text = (body, some after)) :
    body ++ blockQuotes ++ after = text ∧
      ∀ more, blockBody (text ++ more) = (body, some (after ++ more)) := by
  fun_induction blockBody text generalizing body after with
  | case1 => cases closed
  | case2 rest =>
    cases closed
    exact ⟨rfl, fun _ => rfl⟩
  | case3 => cases closed
  | case4 => cases closed
  | case5 c rest noQuote inner end? ran ih =>
    obtain ⟨rfl, rfl⟩ := Prod.mk.inj closed
    obtain ⟨whole, seam⟩ := ih ran
    refine ⟨congrArg ('"' :: '"' :: c :: ·) whole, fun more => ?_⟩
    simp [blockBody, seam]
  | case6 c rest noQuotes notLast noQuote inner end? ran ih =>
    obtain ⟨rfl, rfl⟩ := Prod.mk.inj closed
    obtain ⟨whole, seam⟩ := ih ran
    refine ⟨congrArg ('"' :: c :: ·) whole, fun more => ?_⟩
    have plain : c ≠ '"' := ne_of_followed notLast noQuote
    simp [blockBody, plain, seam]
  | case7 c rest _ _ notLast _ noQuote inner end? ran ih =>
    obtain ⟨rfl, rfl⟩ := Prod.mk.inj closed
    obtain ⟨whole, seam⟩ := ih ran
    refine ⟨congrArg (c :: ·) whole, fun more => ?_⟩
    have plain : c ≠ '"' := ne_of_followed notLast noQuote
    simp [blockBody, plain, seam]

/-- A lexeme at the head of a text: it takes the first character and perhaps more, and it is the
same when a line break and more text come after the text. -/
structure Stands (read : List Char → Lexeme) (c : Char) (rest : List Char) : Prop where
  whole : ∃ others, (read rest).taken = c :: others ∧ others ++ (read rest).rest = rest
  seam : ∀ more, read (rest ++ '\n' :: more) =
    { read rest with rest := (read rest).rest ++ '\n' :: more }

/-- A name stands by itself before a line feed. -/
theorem stands_name {c : Char} (starts : startsName c = true) (rest : List Char) :
    Stands (fun rest => nameLexeme (c :: rest)) c rest where
  whole := by
    have goesOn := continuesName_of_startsName starts
    unfold nameLexeme
    rw [List.span_eq_takeWhile_dropWhile, List.takeWhile_cons_of_pos goesOn,
      List.dropWhile_cons_of_pos goesOn]
    exact ⟨_, rfl, List.takeWhile_append_dropWhile⟩
  seam := by
    intro more
    have cuts : Cuts fun text => text.span continuesName := cuts_span (by decide)
    unfold nameLexeme
    rw [← List.cons_append, cuts.seam (c :: rest) more]

/-- A number stands by itself before a line feed. -/
theorem stands_number {c : Char} (digit : c.isDigit = true) (rest : List Char) :
    Stands (fun rest => numberLexeme [] (c :: rest)) c rest where
  whole := by
    obtain ⟨digits, taken, whole, more, rfl⟩ := numberLexeme_whole [] (c :: rest)
    have first : ∃ others, (wholePart (c :: rest)).1 = c :: others := by
      by_cases zero : c = '0'
      · exact ⟨[], by rw [zero]; rfl⟩
      · rw [wholePart_of_ne zero, List.span_eq_takeWhile_dropWhile,
          List.takeWhile_cons_of_pos digit]
        exact ⟨_, rfl⟩
    obtain ⟨others, first⟩ := first
    rw [first] at whole taken
    exact ⟨others ++ more, taken, (List.cons.inj whole).2⟩
  seam := numberLexeme_seam [] (c :: rest)

/-- A negative number stands by itself before a line feed. -/
theorem stands_negative (rest : List Char) :
    Stands (fun rest => numberLexeme ['-'] rest) '-' rest where
  whole := by
    obtain ⟨digits, taken, whole, _⟩ := numberLexeme_whole ['-'] rest
    exact ⟨digits, taken, whole⟩
  seam := numberLexeme_seam ['-'] rest

/-- A string that is well formed stands by itself before a line feed. -/
theorem stands_string {rest : List Char} {kind : TokenKind}
    (formed : (stringLexeme rest).kind? = some kind) : Stands stringLexeme '"' rest := by
  unfold stringLexeme at formed
  split at formed
  · rename_i body after closed
    obtain ⟨whole, seam⟩ := stringBody_closed closed
    refine ⟨⟨body ++ ['"'], ?_, ?_⟩, fun more => ?_⟩
    · rw [stringLexeme, closed]
      rfl
    · rw [stringLexeme, closed, List.append_assoc]
      exact whole
    · rw [stringLexeme, stringLexeme, closed, seam]
  · contradiction

/-- A block string that is well formed stands by itself before a line feed. -/
theorem stands_blockString {rest : List Char} {kind : TokenKind}
    (formed : (blockLexeme rest).kind? = some kind) :
    Stands (fun rest => blockLexeme (rest.drop 2)) '"' ('"' :: '"' :: rest) := by
  unfold blockLexeme at formed
  split at formed
  · rename_i body after closed
    obtain ⟨whole, seam⟩ := blockBody_closed closed
    refine ⟨⟨'"' :: '"' :: (body ++ blockQuotes), ?_, ?_⟩, fun more => ?_⟩
    · dsimp only [List.drop]
      rw [blockLexeme, closed]
      rfl
    · dsimp only [List.drop]
      rw [blockLexeme, closed]
      exact congrArg ('"' :: '"' :: ·) whole
    · dsimp only [List.drop, List.cons_append]
      rw [blockLexeme, blockLexeme, closed, seam]
  · contradiction

theorem Stands.congr {read other : List Char → Lexeme} {c : Char} {rest : List Char}
    (stands : Stands read c rest) (same : other rest = read rest)
    (same' : ∀ more, other (rest ++ '\n' :: more) = read (rest ++ '\n' :: more)) :
    Stands other c rest where
  whole := same ▸ stands.whole
  seam := fun more => by rw [same, same', stands.seam]

/-- A lexeme that is neither a mark by itself nor a name nor a number without a sign. -/
theorem stands_other {c : Char} {rest : List Char} {kind : TokenKind} (marks : markOf? c = none)
    (starts : ¬startsName c = true) (digit : ¬c.isDigit = true)
    (formed : (lexeme c rest).kind? = some kind) : Stands (lexeme c) c rest := by
  simp only [lexeme, marks, if_neg starts, if_neg digit] at formed
  split at formed
  · exact ⟨⟨['.', '.'], rfl, rfl⟩, fun more => rfl⟩
  · split at formed
    · rename_i d rest digit
      exact (stands_negative (d :: rest)).congr (by simp [lexeme, markOf?, startsName, digit])
        (by simp [lexeme, markOf?, startsName, digit])
    · contradiction
  · exact (stands_blockString formed).congr rfl fun _ => rfl
  · rename_i single
    refine (stands_string formed).congr (lexeme_quote single) fun more => lexeme_quote ?_
    intro others same
    cases rest with
    | nil => cases same
    | cons d rest =>
      cases rest with
      | nil => cases same
      | cons e rest =>
        simp only [List.cons_append, List.cons.injEq] at same
        obtain ⟨rfl, rfl, _⟩ := same
        exact single rest rfl
  · contradiction

/-- A lexeme that is well formed takes characters from the front, its first among them. -/
theorem stands_lexeme {c : Char} {rest : List Char} {kind : TokenKind}
    (formed : (lexeme c rest).kind? = some kind) : Stands (lexeme c) c rest := by
  cases marks : markOf? c with
  | some mark =>
    refine ⟨⟨[], ?_⟩, fun more => ?_⟩ <;> simp [lexeme, marks]
  | none =>
    by_cases starts : startsName c = true
    · exact (stands_name starts rest).congr (by simp [lexeme, marks, starts])
        (by simp [lexeme, marks, starts])
    · by_cases digit : c.isDigit = true
      · exact (stands_number digit rest).congr (by simp [lexeme, marks, starts, digit])
          (by simp [lexeme, marks, starts, digit])
      · exact stands_other marks starts digit formed

end Lexer

end TraversalQuery
