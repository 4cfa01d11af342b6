import TraversalQuery.Proofs.Runs
import TraversalQuery.Proofs.Source.Seams

/-!
# The tokens of joined texts

Two texts are joined by a line break between them. The tokens of the joined text are those of the
first and after them those of the second, which lie further on by the first text and the break.
-/

namespace TraversalQuery

namespace Span

/-- A span that many bytes further on. -/
def later (bytes : Nat) (span : Span) : Span :=
  ofRange (span.start + bytes) (span.stop + bytes)

/-- An offset within the limit is clamped once for all. -/
theorem clamp_clamp_add (offset bytes : Nat) :
    clamp (clamp offset + bytes) = clamp (offset + bytes) := by
  unfold clamp
  grind

/-- A range is later by the bytes before it. -/
theorem later_ofRange (bytes start stop : Nat) :
    (ofRange start stop).later bytes = ofRange (start + bytes) (stop + bytes) := by
  simp only [later, ofRange, clamp_clamp_add]

/-- The span that holds two is later as they are. -/
theorem later_merge (bytes : Nat) (first second : Span) :
    (first.merge second).later bytes = (first.later bytes).merge (second.later bytes) := by
  obtain ⟨start, stop⟩ := first
  obtain ⟨start', stop'⟩ := second
  simp only [later, merge, ofRange, mk.injEq]
  unfold clamp
  constructor <;> grind

end Span

namespace Token

/-- A token at another place. -/
def placed (place : Span → Span) (token : Token) : Token :=
  { token with span := place token.span }

end Token

namespace Lexer

open Text (byteLength)

/-- The tokens of a text whose first character is at an offset. -/
inductive Scans : Nat → List Char → List Token → Prop
  | done {offset stop : Nat} {text : List Char}
      (skips : skipIgnored false offset text = (stop, [])) :
      Scans offset text []
  | token {offset start : Nat} {text rest : List Char} {c : Char} {kind : TokenKind}
      {others : List Token} (skips : skipIgnored false offset text = (start, c :: rest))
      (formed : (lexeme c rest).kind? = some kind)
      (later : Scans (start + byteLength (lexeme c rest).taken) (lexeme c rest).rest others) :
      Scans offset text
        (⟨kind, .ofRange start (start + byteLength (lexeme c rest).taken)⟩ :: others)

/-- What stands between lexemes is skipped from the front of a text. -/
theorem skipIgnored_suffix (text : List Char) : ∀ (inComment : Bool) (offset : Nat),
    (skipIgnored inComment offset text).2 <:+ text := by
  induction text with
  | nil => exact fun inComment _ => by cases inComment <;> exact List.suffix_rfl
  | cons c rest ih =>
    intro inComment offset
    have later (inComment : Bool) (offset : Nat) :=
      (ih inComment offset).trans (List.suffix_cons c rest)
    cases inComment with
    | true => exact later _ _
    | false =>
      rw [skipIgnored]
      split
      · exact later _ _
      · split
        · exact later _ _
        · exact List.suffix_rfl

/-- Tokens are found by scanning as long as there is fuel for every character. -/
theorem scans_iff {fuel : Nat} : ∀ {offset : Nat} {text : List Char} {found : List Token},
    text.length ≤ fuel → (tokensFrom fuel offset text = .ok found ↔ Scans offset text found) := by
  induction fuel with
  | zero =>
    intro offset text found enough
    obtain rfl := List.length_eq_zero_iff.mp (Nat.le_zero.mp enough)
    constructor
    · intro read
      cases read
      exact .done rfl
    · intro scans
      cases scans with
      | done => rfl
      | token skips => cases skips
  | succ fuel ih =>
    intro offset text found enough
    have shorter := (skipIgnored_suffix text false offset).length_le
    rcases skips : skipIgnored false offset text with ⟨start, _ | ⟨c, rest⟩⟩
    · rw [tokensFrom, skips]
      constructor
      · intro read
        cases read
        exact .done skips
      · intro scans
        cases scans with
        | done => rfl
        | token other => rw [skips] at other; cases other
    · rw [skips] at shorter
      rw [tokensFrom, skips]
      dsimp only
      cases formed : (lexeme c rest).kind? with
      | none =>
        refine ⟨nofun, fun scans => ?_⟩
        cases scans with
        | done other => rw [skips] at other; cases other
        | token other isFormed =>
          rw [skips] at other
          cases other
          rw [formed] at isFormed
          contradiction
      | some kind =>
        have left : (lexeme c rest).rest.length ≤ fuel := by
          obtain ⟨others, _, whole⟩ := (stands_lexeme formed).whole
          have total := congrArg List.length whole
          rw [List.length_append] at total
          rw [List.length_cons] at shorter
          omega
        dsimp only
        rw [Except.bind_eq_ok_iff]
        constructor
        · rintro ⟨others, later, same⟩
          cases same
          exact .token skips formed ((ih left).mp later)
        · intro scans
          cases scans with
          | done other => rw [skips] at other; cases other
          | token other isFormed later =>
            rw [skips] at other
            cases other
            rw [formed] at isFormed
            cases isFormed
            exact ⟨_, (ih left).mpr later, rfl⟩

/-- A source has some tokens exactly if it is scanned to them. -/
theorem tokens_eq_ok_iff {source : String} {found : List Token} :
    tokens source = .ok found ↔ Scans 0 source.toList found :=
  scans_iff (Nat.le_refl _)

/-- What stands between lexemes is skipped up to the end of a text and beyond the line break after
it, and no more of it than is there is skipped before a lexeme. -/
theorem skipIgnored_seam (more text : List Char) : ∀ (inComment : Bool) (offset : Nat),
    skipIgnored inComment offset (text ++ '\n' :: more) =
      match skipIgnored inComment offset text with
      | (stop, []) => skipIgnored false (stop + 1) more
      | (start, c :: rest) => (start, c :: rest ++ '\n' :: more) := by
  induction text with
  | nil =>
    intro inComment offset
    cases inComment <;> rfl
  | cons c rest ih =>
    intro inComment offset
    cases inComment with
    | true => exact ih _ _
    | false =>
      rw [List.cons_append, skipIgnored, skipIgnored]
      split
      · exact ih _ _
      · split
        · exact ih _ _
        · rfl

/-- Skipping moves on by the bytes that are skipped. -/
theorem byteLength_skipIgnored (text : List Char) : ∀ (inComment : Bool) (offset : Nat),
    (skipIgnored inComment offset text).1 + byteLength (skipIgnored inComment offset text).2 =
      offset + byteLength text := by
  induction text with
  | nil => exact fun inComment _ => by cases inComment <;> rfl
  | cons c rest ih =>
    intro inComment offset
    rw [Text.byteLength_cons, ← Nat.add_assoc]
    cases inComment with
    | true => exact ih _ _
    | false =>
      rw [skipIgnored]
      split
      · exact ih _ _
      · split
        · exact ih _ _
        · exact (Nat.add_assoc _ _ _).symm

/-- What is ignored is skipped alike at other offsets. -/
theorem skipIgnored_later (bytes : Nat) (text : List Char) : ∀ (inComment : Bool) (offset : Nat),
    skipIgnored inComment (offset + bytes) text =
      ((skipIgnored inComment offset text).1 + bytes, (skipIgnored inComment offset text).2) := by
  induction text with
  | nil => exact fun inComment _ => by cases inComment <;> rfl
  | cons c rest ih =>
    intro inComment offset
    have moves : offset + bytes + c.utf8Size = offset + c.utf8Size + bytes :=
      Nat.add_right_comm _ _ _
    cases inComment with
    | true => rw [skipIgnored, skipIgnored, moves, ih]
    | false =>
      rw [skipIgnored, skipIgnored, moves]
      split
      · exact ih _ _
      · split
        · exact ih _ _
        · rfl

/-- A well-formed lexeme and what comes after it are as long as the text. -/
theorem byteLength_lexeme {c : Char} {rest : List Char} {kind : TokenKind}
    (formed : (lexeme c rest).kind? = some kind) :
    byteLength (lexeme c rest).taken + byteLength (lexeme c rest).rest =
      byteLength (c :: rest) := by
  obtain ⟨others, taken, whole⟩ := (stands_lexeme formed).whole
  rw [taken, ← Text.byteLength_append, List.cons_append, whole]

namespace Scans

/-- Every token is a well-formed lexeme of the text, and its span is the place of that lexeme. -/
theorem exists_lexeme {offset : Nat} {text : List Char} {found : List Token} {token : Token}
    (scans : Scans offset text found) (member : token ∈ found) :
    ∃ before c rest, text = before ++ c :: rest ∧ (lexeme c rest).kind? = some token.kind ∧
      token.span = .ofRange (offset + byteLength before)
        (offset + byteLength before + byteLength (lexeme c rest).taken) := by
  induction scans with
  | done => exact absurd member List.not_mem_nil
  | @token offset start text rest c kind others skips formed _ ih =>
    obtain ⟨skipped, split⟩ := skipIgnored_suffix text false offset
    have length := byteLength_skipIgnored text false offset
    rw [skips] at split length
    dsimp only at split length
    subst split
    have begins : start = offset + byteLength skipped := by
      rw [Text.byteLength_append] at length
      omega
    cases member with
    | head => exact ⟨skipped, c, rest, rfl, formed, by rw [begins]⟩
    | tail _ member =>
      obtain ⟨taken, shape, whole⟩ := (stands_lexeme formed).whole
      obtain ⟨before, d, more, left, formed', span⟩ := ih member
      refine ⟨skipped ++ c :: taken ++ before, d, more, ?_, formed', ?_⟩
      · rw [List.append_assoc, List.append_assoc, ← left, List.cons_append, whole]
      · rw [span, shape, begins, Text.byteLength_append, Text.byteLength_append,
          Nat.add_assoc offset, Nat.add_assoc offset]

/-- Only where the first lexeme begins and what comes from there on counts. -/
theorem of_skips {offset offset' : Nat} {text text' : List Char} {found : List Token}
    (scans : Scans offset text found)
    (same : skipIgnored false offset' text' = skipIgnored false offset text) :
    Scans offset' text' found := by
  cases scans with
  | done skips => exact .done (same.trans skips)
  | token skips formed later => exact .token (same.trans skips) formed later

/-- Tokens of a text followed by those of the text after a line break. -/
theorem join {offset : Nat} {text more : List Char} {found others : List Token}
    (scans : Scans offset text found) (scans' : Scans (offset + byteLength text + 1) more others) :
    Scans offset (text ++ '\n' :: more) (found ++ others) := by
  induction scans with
  | @done offset stop text skips =>
    have length := byteLength_skipIgnored text false offset
    have seam := skipIgnored_seam more text false offset
    rw [skips] at length seam
    have ends : stop = offset + byteLength text := length
    exact scans'.of_skips (ends ▸ seam)
  | @token offset start text rest c kind found skips formed later ih =>
    have length := byteLength_skipIgnored text false offset
    have seam := skipIgnored_seam more text false offset
    rw [skips] at length seam
    have same := (stands_lexeme formed).seam more
    have total : start + byteLength (lexeme c rest).taken + byteLength (lexeme c rest).rest =
        offset + byteLength text := by
      rw [Nat.add_assoc, byteLength_lexeme formed, length]
    have after := ih (total ▸ scans')
    change _ = (start, c :: (rest ++ '\n' :: more)) at seam
    have joined := @Scans.token offset start _ _ c kind _ seam (by rw [same]; exact formed)
      (by rw [same]; exact after)
    rwa [same] at joined

/-- A text further on has its tokens further on. -/
theorem later (bytes : Nat) {offset : Nat} {text : List Char} {found : List Token}
    (scans : Scans offset text found) :
    Scans (offset + bytes) text (found.map (·.placed (·.later bytes))) := by
  induction scans with
  | @done offset stop text skips =>
    exact .done (by rw [skipIgnored_later, skips])
  | @token offset start text rest c kind found skips formed later ih =>
    have moved := skipIgnored_later bytes text false offset
    rw [skips] at moved
    rw [Nat.add_right_comm] at ih
    have first := Scans.token moved formed ih
    rwa [List.map_cons, Token.placed, Span.later_ofRange, Nat.add_right_comm start]

end Scans

theorem utf8ByteSize_ofList (text : List Char) :
    (String.ofList text).utf8ByteSize = byteLength text := by
  induction text with
  | nil => rfl
  | cons c rest ih =>
    rw [String.ofList_cons, String.utf8ByteSize_append, String.utf8ByteSize_singleton, ih,
      Text.byteLength_cons]

theorem utf8ByteSize_eq (text : String) : text.utf8ByteSize = byteLength text.toList := by
  rw [← utf8ByteSize_ofList, String.ofList_toList]

/-- The tokens of a joined text are those of its parts. -/
theorem tokens_join {first second : String} {found others : List Token}
    (read : tokens first = .ok found) (read' : tokens second = .ok others) :
    tokens (first ++ "\n" ++ second) =
      .ok (found ++ others.map (·.placed (·.later (first.utf8ByteSize + 1)))) := by
  rw [tokens_eq_ok_iff] at read read' ⊢
  have shifted := read'.later (first.utf8ByteSize + 1)
  rw [utf8ByteSize_eq, ← Nat.add_assoc] at shifted
  have joined := read.join shifted
  have text : (first ++ "\n" ++ second).toList = first.toList ++ '\n' :: second.toList := by
    simp
  rwa [text, utf8ByteSize_eq]

end Lexer

end TraversalQuery
