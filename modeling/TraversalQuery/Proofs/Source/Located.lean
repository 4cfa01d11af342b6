import Mathlib.Algebra.Group.Nat.Defs
import TraversalQuery.Proofs.Source.Arrivals
import TraversalQuery.Source.Location

/-!
# Places in a text

In a text whose bytes can all be named, every token and every error stands at a stretch of whole
characters, and the tokens stand one after another. At both ends of such a stretch the number of a
character is the number of the characters before it.
-/

namespace TraversalQuery

open Text (byteLength)

theorem Text.eq_nil_of_byteLength {text : List Char} (none : byteLength text = 0) : text = [] := by
  cases text with
  | nil => rfl
  | cons c rest =>
    have positive := c.utf8Size_pos
    rw [Text.byteLength_cons] at none
    omega

/-- A stretch of a text: it begins and ends between two characters, or at an end of the text. -/
structure Span.Located (text : List Char) (span : Span) : Prop where
  begins : ∃ before after, text = before ++ after ∧ span.start = byteLength before
  ends : ∃ before after, text = before ++ after ∧ span.stop = byteLength before
  ordered : span.start ≤ span.stop

namespace Span.Located

variable {text before part after : List Char} {first second : Span}

/-- The span that holds two located ones is located. -/
theorem merge (located : first.Located text) (located' : second.Located text) :
    (first.merge second).Located text := by
  obtain ⟨begins, ends, ordered⟩ := located
  obtain ⟨begins', ends', ordered'⟩ := located'
  refine ⟨?_, ?_, ?_⟩
  · rw [Span.merge]
    dsimp only
    split
    · exact begins
    · exact begins'
  · rw [Span.merge]
    dsimp only
    split
    · exact ends'
    · exact ends
  · rw [Span.merge]
    dsimp only
    split <;> split <;> omega

/-- The bytes of a part of a text, which can be named. -/
theorem of_part (whole : text = before ++ part ++ after) (short : byteLength text ≤ limit) :
    (ofRange (byteLength before) (byteLength before + byteLength part)).Located text := by
  have total := congrArg byteLength whole
  rw [Text.byteLength_append, Text.byteLength_append] at total
  refine ⟨⟨before, part ++ after, by rw [whole, List.append_assoc], ?_⟩,
    ⟨before ++ part, after, whole, ?_⟩, ?_⟩
  · exact clamp_of_le (by omega)
  · rw [Text.byteLength_append]
    exact clamp_of_le (by omega)
  · rw [ofRange, clamp_of_le (by omega), clamp_of_le (by omega)]
    exact Nat.le_add_right _ _

theorem zero : Span.zero.Located text :=
  ⟨⟨[], text, rfl, rfl⟩, ⟨[], text, rfl, rfl⟩, Nat.le_refl _⟩

/-- The end of a text. -/
theorem ending (short : byteLength text ≤ limit) :
    (ofRange (byteLength text) (byteLength text)).Located text := by
  have whole : text = text ++ [] ++ [] := by rw [List.append_nil, List.append_nil]
  exact of_part whole short

/-- The part of the text at a stretch of it, with what stands before and after. -/
theorem exists_part (located : first.Located text) :
    ∃ before part after, text = before ++ part ++ after ∧ first.start = byteLength before ∧
      first.stop = byteLength before + byteLength part := by
  obtain ⟨before, after, whole, starts⟩ := located.begins
  obtain ⟨through, after', whole', stops⟩ := located.ends
  have ordered := located.ordered
  rw [starts, stops] at ordered
  rcases List.prefix_or_prefix_of_prefix ⟨after, whole.symm⟩ ⟨after', whole'.symm⟩ with
    ⟨part, rfl⟩ | ⟨part, rfl⟩
  · exact ⟨before, part, after', whole', starts, stops.trans (Text.byteLength_append _ _)⟩
  · obtain rfl : part = [] := by
      rw [Text.byteLength_append] at ordered
      exact Text.eq_nil_of_byteLength (by omega)
    rw [List.append_nil] at whole starts
    exact ⟨through, [], after', by rwa [List.append_nil], starts, stops⟩

end Span.Located

namespace Location

/-- As many characters come before a place as the text before it has. -/
theorem charactersBefore?_append (before after : List Char) :
    charactersBefore? (before ++ after) (byteLength before) = some before.length := by
  induction before with
  | nil => cases after <;> rfl
  | cons c before ih =>
    have positive := c.utf8Size_pos
    obtain ⟨byte, more⟩ : ∃ byte, byteLength (c :: before) = byte + 1 :=
      ⟨byteLength (c :: before) - 1, by rw [Text.byteLength_cons]; omega⟩
    have left : byte + 1 - c.utf8Size = byteLength before := by
      rw [← more, Text.byteLength_cons, Nat.add_sub_cancel_left]
    have enough : ¬byte + 1 < c.utf8Size := by
      rw [← more, Text.byteLength_cons]
      omega
    rw [more, List.cons_append, charactersBefore?, if_neg enough, left, ih]
    rfl

/-- Where characters begin, their number is that of the characters before them. -/
theorem characterAt_append (before after : List Char) :
    characterAt (before ++ after) (byteLength before) = before.length := by
  rw [characterAt, charactersBefore?_append]
  rfl

end Location

/-- Tokens that stand one after another in a text. -/
structure InOrder (tokens : List Token) : Prop where
  proper : ∀ token ∈ tokens, token.span.start ≤ token.span.stop
  apart : tokens.Pairwise fun token later => token.span.stop ≤ later.span.start

namespace InOrder

variable {tokens others : List Token}

/-- Part of tokens in order is in order. -/
theorem sublist (inOrder : InOrder tokens) (part : others.Sublist tokens) : InOrder others :=
  ⟨fun token member => inOrder.proper token (part.subset member), inOrder.apart.sublist part⟩

/-- From the first token to the last. -/
theorem merge (inOrder : InOrder tokens) {first last : Token} (isFirst : first ∈ tokens.head?)
    (isLast : last ∈ tokens.getLast?) :
    first.span.merge last.span = ⟨first.span.start, last.span.stop⟩ := by
  obtain ⟨rest, rfl⟩ := List.head?_eq_some_iff.mp isFirst
  have proper := inOrder.proper first List.mem_cons_self
  have proper' := inOrder.proper last (List.mem_of_getLast? isLast)
  cases rest with
  | nil =>
    obtain rfl : first = last := by simpa using isLast
    simp [Span.merge]
  | cons second rest =>
    rw [Option.mem_def, List.getLast?_cons_cons] at isLast
    have apart := (List.pairwise_cons.mp inOrder.apart).1 last (List.mem_of_getLast? isLast)
    simp only [Span.merge, Span.mk.injEq]
    constructor <;> split <;> omega

end InOrder

namespace Lexer

/-- Tokens lie in a text that is short enough. -/
theorem Scans.located {text : List Char} {found : List Token} {token : Token}
    (scans : Scans 0 text found) (short : byteLength text ≤ Span.limit) (member : token ∈ found) :
    token.span.Located text := by
  obtain ⟨before, c, rest, whole, formed, place⟩ := scans.exists_lexeme member
  obtain ⟨taken, shape, parts⟩ := (stands_lexeme formed).whole
  rw [place, Nat.zero_add, shape]
  have stretch : text = before ++ c :: taken ++ (lexeme c rest).rest := by
    rw [whole, List.append_assoc, List.cons_append, parts]
  exact .of_part stretch short

/-- Tokens begin where the text does or further on. -/
theorem Scans.le_start {offset : Nat} {text : List Char} {found : List Token} {token : Token}
    (scans : Scans offset text found) (short : offset + byteLength text ≤ Span.limit)
    (member : token ∈ found) : offset ≤ token.span.start := by
  obtain ⟨before, c, rest, rfl, _, place⟩ := scans.exists_lexeme member
  rw [Text.byteLength_append] at short
  rw [place, Span.ofRange, Span.clamp_of_le (by omega)]
  exact Nat.le_add_right _ _

/-- Tokens of a text that is short enough are in order. -/
theorem Scans.inOrder {offset : Nat} {text : List Char} {found : List Token}
    (scans : Scans offset text found) (short : offset + byteLength text ≤ Span.limit) :
    InOrder found := by
  induction scans with
  | done => exact ⟨nofun, .nil⟩
  | @token offset start text rest c kind others skips formed later ih =>
    have length := byteLength_skipIgnored text false offset
    rw [skips] at length
    have parts := byteLength_lexeme formed
    dsimp only at length
    have first : Span.ofRange start (start + byteLength (lexeme c rest).taken) =
        ⟨start, start + byteLength (lexeme c rest).taken⟩ := by
      rw [Span.ofRange, Span.clamp_of_le (by omega), Span.clamp_of_le (by omega)]
    have rest := ih (by omega)
    refine ⟨List.forall_mem_cons.mpr ⟨?_, rest.proper⟩, .cons (fun token member => ?_) rest.apart⟩
    · rw [first]
      exact Nat.le_add_right _ _
    · rw [first]
      exact later.le_start (by omega) member

section

variable {source : String} (short : source.utf8ByteSize < 2 ^ 32)
include short

/-- A source that is short enough stays within the limit. -/
theorem byteLength_le_limit : byteLength source.toList ≤ Span.limit := by
  rw [← utf8ByteSize_eq]
  exact Nat.le_sub_one_of_lt short

/-- The tokens of a source lie in it. -/
theorem located_of_tokens {found : List Token} (read : tokens source = .ok found) {token : Token}
    (member : token ∈ found) : token.span.Located source.toList :=
  (tokens_eq_ok_iff.mp read).located (byteLength_le_limit short) member

/-- The tokens of a source are in order. -/
theorem inOrder_of_tokens {found : List Token} (read : tokens source = .ok found) :
    InOrder found :=
  (tokens_eq_ok_iff.mp read).inOrder (by rw [Nat.zero_add]; exact byteLength_le_limit short)

/-- The characters that cannot be read stand in the text. -/
theorem located_of_tokens_error {error : SyntaxError} (failed : tokens source = .error error) :
    error.span.Located source.toList := by
  obtain ⟨start, c, rest, arrives, _, rfl⟩ := tokens_eq_error_iff.mp failed
  obtain ⟨before, whole, begins⟩ := arrives.exists_before
  obtain ⟨after, parts⟩ := taken_lexeme_prefix c rest
  rw [malformed, begins, Nat.zero_add]
  have stretch : source.toList = before ++ (lexeme c rest).taken ++ after := by
    rw [whole, List.append_assoc, parts]
  exact .of_part stretch (byteLength_le_limit short)

end

end Lexer

end TraversalQuery
