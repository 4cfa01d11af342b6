import TraversalQuery.Source.Lexer

/-!
# What lexemes stand for

The first characters of a lexeme tell which reader takes it, and each reader gives tokens of its own
kinds. So from the kind of a token it follows which reader gave it, and what the token looks like.
-/

namespace TraversalQuery

namespace Lexer

/-- The lexemes that stand for tokens, by the kinds of the tokens. -/
inductive Forms (c : Char) (rest : List Char) : TokenKind → Prop
  | mark (mark : Punctuator) : Forms c rest (.mark mark)
  | name {text : String} (starts : startsName c = true)
      (formed : (nameLexeme (c :: rest)).kind? = some (.name text)) : Forms c rest (.name text)
  | int (value : Int) : Forms c rest (.int value)
  | float (value : Binary64) : Forms c rest (.float value)
  | string {text : String} (quote : c = '"') (read : lexeme c rest = stringLexeme rest)
      (formed : (stringLexeme rest).kind? = some (.string text)) : Forms c rest (.string text)
  | blockString {text : String} {inner : List Char} (quotes : c :: rest = blockQuotes ++ inner)
      (read : lexeme c rest = blockLexeme inner)
      (formed : (blockLexeme inner).kind? = some (.blockString text)) :
      Forms c rest (.blockString text)

/-- What a name can begin with, it can go on with. -/
theorem continuesName_of_startsName {c : Char} (starts : startsName c = true) :
    continuesName c = true := by
  unfold startsName at starts
  unfold continuesName
  rw [starts, Bool.true_or]

/-- A quote begins a string unless two more come after it. -/
theorem lexeme_quote {rest : List Char} (single : ∀ more, rest ≠ '"' :: '"' :: more) :
    lexeme '"' rest = stringLexeme rest := by
  cases rest with
  | nil => rfl
  | cons c rest =>
    by_cases quote : c = '"'
    · subst quote
      cases rest with
      | nil => rfl
      | cons d rest =>
        have other : d ≠ '"' := fun same => single rest (same ▸ rfl)
        simp [lexeme, markOf?, startsName]
    · simp [lexeme, markOf?, startsName]

section Forms

variable {c : Char} {rest text : List Char} {kind : TokenKind}

/-- What is read as a number is formed as one. -/
theorem forms_number {sign : List Char} (formed : (numberLexeme sign text).kind? = some kind) :
    Forms c rest kind := by
  unfold numberLexeme at formed
  dsimp only at formed
  split at formed
  · obtain ⟨_, same⟩ := Option.ite_none_right_eq_some.mp formed
    cases same
    exact .int _
  · cases formed
    exact .float _

/-- A lexeme of a string is a string. -/
theorem of_stringLexeme (formed : (stringLexeme text).kind? = some kind) :
    ∃ value, kind = .string value := by
  unfold stringLexeme at formed
  split at formed
  · obtain ⟨value, -, rfl⟩ := Option.map_eq_some_iff.mp formed
    exact ⟨_, rfl⟩
  · contradiction

/-- A lexeme of a block string is a block string. -/
theorem of_blockLexeme (formed : (blockLexeme text).kind? = some kind) :
    ∃ value, kind = .blockString value := by
  unfold blockLexeme at formed
  split at formed
  · cases formed
    exact ⟨_, rfl⟩
  · contradiction

/-- Every lexeme that stands for a token has the form of such tokens. -/
theorem forms_lexeme (formed : (lexeme c rest).kind? = some kind) : Forms c rest kind := by
  have given := formed
  unfold lexeme at given
  split at given
  · cases given
    exact .mark _
  · split at given
    · rename_i starts
      cases given
      exact .name starts rfl
    · split at given
      · exact forms_number given
      · split at given
        · cases given
          exact .mark _
        · split at given
          · exact forms_number given
          · contradiction
        · obtain ⟨value, rfl⟩ := of_blockLexeme given
          exact .blockString rfl rfl given
        · rename_i single
          obtain ⟨value, rfl⟩ := of_stringLexeme given
          exact .string rfl (lexeme_quote single) given
        · contradiction

end Forms

end Lexer

end TraversalQuery
