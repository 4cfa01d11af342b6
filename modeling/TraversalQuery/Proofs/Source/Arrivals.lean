import TraversalQuery.Proofs.Source.Scanning

/-!
# Where lexing stops

Lexing arrives at one lexeme after another. It stops at the first that is malformed, and blames the
characters which that lexeme takes. They stand in the text, so an error is always at a stretch of
whole characters.
-/

namespace TraversalQuery

namespace Lexer

open Text (byteLength)

/-- Lexing of a text, whose first character is at an offset, arrives at a lexeme: its place, its
first character and the text after that. All lexemes before it are well formed. -/
inductive Arrives : Nat → List Char → Nat → Char → List Char → Prop
  | here {offset start : Nat} {text rest : List Char} {c : Char}
      (skips : skipIgnored false offset text = (start, c :: rest)) :
      Arrives offset text start c rest
  | later {offset first start : Nat} {text more rest : List Char} {d c : Char} {kind : TokenKind}
      (skips : skipIgnored false offset text = (first, d :: more))
      (formed : (lexeme d more).kind? = some kind)
      (onward : Arrives (first + byteLength (lexeme d more).taken) (lexeme d more).rest start c
        rest) :
      Arrives offset text start c rest

/-- The error that a malformed lexeme is. -/
def malformed (start : Nat) (lexeme : Lexeme) : SyntaxError :=
  ⟨.unexpectedCharacters (String.ofList lexeme.taken),
    .ofRange start (start + byteLength lexeme.taken)⟩

section

variable {offset first start : Nat} {text more rest : List Char} {c d : Char}

/-- Where everything is skipped nothing is arrived at. -/
theorem not_arrives_of_skips (skips : skipIgnored false offset text = (first, [])) :
    ¬Arrives offset text start c rest := by
  intro arrives
  cases arrives with
  | here other => cases skips.symm.trans other
  | later other => cases skips.symm.trans other

/-- Lexing arrives at the first lexeme, and at those after it if it is well formed. -/
theorem arrives_iff_of_skips (skips : skipIgnored false offset text = (first, d :: more)) :
    Arrives offset text start c rest ↔ (start = first ∧ c = d ∧ rest = more) ∨
      (∃ kind, (lexeme d more).kind? = some kind) ∧
        Arrives (first + byteLength (lexeme d more).taken) (lexeme d more).rest start c rest := by
  constructor
  · intro arrives
    cases arrives with
    | here other =>
      cases skips.symm.trans other
      exact .inl ⟨rfl, rfl, rfl⟩
    | later other formed onward =>
      cases skips.symm.trans other
      exact .inr ⟨⟨_, formed⟩, onward⟩
  · rintro (⟨rfl, rfl, rfl⟩ | ⟨⟨kind, formed⟩, onward⟩)
    · exact .here skips
    · exact .later skips formed onward

end

/-- Lexing fails just where it arrives at a malformed lexeme. -/
theorem tokensFrom_eq_error_iff {error : SyntaxError} {fuel : Nat} :
    ∀ {offset : Nat} {text : List Char}, text.length ≤ fuel →
      (tokensFrom fuel offset text = .error error ↔
        ∃ start c rest, Arrives offset text start c rest ∧ (lexeme c rest).kind? = none ∧
          error = malformed start (lexeme c rest)) := by
  induction fuel with
  | zero =>
    intro offset text enough
    obtain rfl := List.length_eq_zero_iff.mp (Nat.le_zero.mp enough)
    constructor
    · intro failed
      contradiction
    · rintro ⟨start, c, rest, arrives, -, -⟩
      exact absurd arrives (not_arrives_of_skips rfl)
  | succ fuel ih =>
    intro offset text enough
    have shorter := (skipIgnored_suffix text false offset).length_le
    rcases skips : skipIgnored false offset text with ⟨first, _ | ⟨d, more⟩⟩
    · simp only [not_arrives_of_skips skips, false_and, exists_false, iff_false]
      rw [tokensFrom, skips]
      intro failed
      contradiction
    · rw [skips, List.length_cons] at shorter
      simp only [arrives_iff_of_skips skips]
      rw [tokensFrom, skips]
      dsimp only
      cases formed : (lexeme d more).kind? with
      | none =>
        constructor
        · intro failed
          exact ⟨first, d, more, .inl ⟨rfl, rfl, rfl⟩, formed, (Except.error.inj failed).symm⟩
        · rintro ⟨start, c, rest, ⟨rfl, rfl, rfl⟩ | ⟨⟨kind, isKind⟩, -⟩, -, rfl⟩
          · rfl
          · contradiction
      | some kind =>
        have left : (lexeme d more).rest.length ≤ fuel := by
          obtain ⟨others, _, whole⟩ := (stands_lexeme formed).whole
          have total := congrArg List.length whole
          rw [List.length_append] at total
          omega
        dsimp only
        constructor
        · intro failed
          rcases Except.of_bind_eq_error failed with failed | ⟨others, _, finished⟩
          · obtain ⟨start, c, rest, onward, broken, same⟩ := (ih left).mp failed
            exact ⟨start, c, rest, .inr ⟨⟨kind, rfl⟩, onward⟩, broken, same⟩
          · contradiction
        · rintro ⟨start, c, rest, ⟨rfl, rfl, rfl⟩ | ⟨-, onward⟩, broken, same⟩
          · rw [formed] at broken
            contradiction
          · rw [(ih left).mpr ⟨start, c, rest, onward, broken, same⟩, Except.error_bind]

/-- A source has no tokens exactly if a lexeme is arrived at that is malformed. -/
theorem tokens_eq_error_iff {source : String} {error : SyntaxError} :
    tokens source = .error error ↔
      ∃ start c rest, Arrives 0 source.toList start c rest ∧ (lexeme c rest).kind? = none ∧
        error = malformed start (lexeme c rest) :=
  tokensFrom_eq_error_iff (Nat.le_refl _)

/-- A lexeme that lexing arrives at stands in the text, at its place. -/
theorem Arrives.exists_before {offset start : Nat} {text rest : List Char} {c : Char}
    (arrives : Arrives offset text start c rest) :
    ∃ before, text = before ++ c :: rest ∧ start = offset + byteLength before := by
  induction arrives with
  | @here offset start text rest c skips =>
    obtain ⟨skipped, split⟩ := skipIgnored_suffix text false offset
    have length := byteLength_skipIgnored text false offset
    rw [skips] at split length
    subst split
    rw [Text.byteLength_append] at length
    exact ⟨skipped, rfl, by omega⟩
  | @later offset first start text more rest d c kind skips formed _ ih =>
    obtain ⟨skipped, split⟩ := skipIgnored_suffix text false offset
    have length := byteLength_skipIgnored text false offset
    rw [skips] at split length
    subst split
    obtain ⟨taken, shape, whole⟩ := (stands_lexeme formed).whole
    obtain ⟨before, left, begins⟩ := ih
    refine ⟨skipped ++ d :: taken ++ before, ?_, ?_⟩
    · rw [List.append_assoc, List.append_assoc, ← left, List.cons_append, whole]
    · rw [Text.byteLength_append] at length
      rw [begins, shape, Text.byteLength_append, Text.byteLength_append]
      omega

/-! ### Malformed lexemes -/

/-- The body of a string is the beginning of what follows the quote. -/
theorem stringBody_prefix (text : List Char) : (stringBody text).1 <+: text := by
  fun_induction stringBody text with
  | case1 | case2 | case3 | case4 | case5 => exact List.nil_prefix
  | case6 c rest _ inner end? ran ih =>
    rw [ran] at ih
    exact List.cons_prefix_cons.mpr ⟨rfl, List.cons_prefix_cons.mpr ⟨rfl, ih⟩⟩
  | case7 c rest _ _ _ _ inner end? ran ih =>
    rw [ran] at ih
    exact List.cons_prefix_cons.mpr ⟨rfl, ih⟩

/-- The body of a block string is the beginning of what follows the quotes. -/
theorem blockBody_prefix (text : List Char) : (blockBody text).1 <+: text := by
  fun_induction blockBody text with
  | case1 | case2 | case3 | case4 => exact List.nil_prefix
  | case5 c rest _ inner end? ran ih =>
    rw [ran] at ih
    exact List.cons_prefix_cons.mpr ⟨rfl, List.cons_prefix_cons.mpr ⟨rfl,
      List.cons_prefix_cons.mpr ⟨rfl, ih⟩⟩⟩
  | case6 c rest _ _ _ inner end? ran ih =>
    rw [ran] at ih
    exact List.cons_prefix_cons.mpr ⟨rfl, List.cons_prefix_cons.mpr ⟨rfl, ih⟩⟩
  | case7 c rest _ _ _ _ _ inner end? ran ih =>
    rw [ran] at ih
    exact List.cons_prefix_cons.mpr ⟨rfl, ih⟩

/-- A number takes the beginning of the text. -/
theorem taken_numberLexeme_prefix (sign text : List Char) :
    (numberLexeme sign text).taken <+: sign ++ text := by
  obtain ⟨digits, taken, whole, -⟩ := numberLexeme_whole sign text
  exact ⟨(numberLexeme sign text).rest, by rw [taken, List.append_assoc, whole]⟩

/-- A string takes the beginning of the text. -/
theorem taken_stringLexeme_prefix (text : List Char) :
    (stringLexeme text).taken <+: '"' :: text := by
  unfold stringLexeme
  split
  · rename_i body after closed
    exact ⟨after, by rw [← (stringBody_closed closed).1]; simp⟩
  · rename_i body unclosed
    have begins := stringBody_prefix text
    rw [unclosed] at begins
    exact List.cons_prefix_cons.mpr ⟨rfl, begins⟩

/-- A block string takes the beginning of the text. -/
theorem taken_blockLexeme_prefix (text : List Char) :
    (blockLexeme text).taken <+: blockQuotes ++ text := by
  unfold blockLexeme
  split
  · rename_i body after closed
    exact ⟨after, by rw [← (blockBody_closed closed).1]; simp⟩
  · rename_i body unclosed
    have begins := blockBody_prefix text
    rw [unclosed] at begins
    exact (List.prefix_append_right_inj _).mpr begins

/-- A lexeme takes characters from the front of the text, a malformed one too. -/
theorem taken_lexeme_prefix (c : Char) (rest : List Char) :
    (lexeme c rest).taken <+: c :: rest := by
  have single : [c] <+: c :: rest := ⟨rest, rfl⟩
  unfold lexeme
  split
  · exact single
  · split
    · rw [nameLexeme, List.span_eq_takeWhile_dropWhile]
      exact List.takeWhile_prefix _
    · split
      · exact taken_numberLexeme_prefix [] (c :: rest)
      · split
        · exact ⟨_, rfl⟩
        · split
          · exact taken_numberLexeme_prefix ['-'] _
          · exact single
        · exact taken_blockLexeme_prefix _
        · exact taken_stringLexeme_prefix _
        · exact single

end Lexer

end TraversalQuery
