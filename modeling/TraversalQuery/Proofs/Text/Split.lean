import Mathlib.Data.List.Basic
import TraversalQuery.Text.Blank
import TraversalQuery.Text.Split

/-!
# Cutting texts apart and putting them together

A text that is put together from parts is cut apart into the same parts, as long as the separator is
where the cut looks for it. The other way round, what a cut gives tells what the text was.
-/

namespace TraversalQuery

namespace Text

section Pieces

/-- A text without the separator is one piece. -/
theorem pieces_of_free {separator : Char} {piece : List Char} (free : separator ∉ piece) :
    pieces separator piece = [piece] := by
  induction piece with
  | nil => rfl
  | cons c rest ih =>
    obtain ⟨other, free⟩ := List.ne_and_not_mem_of_not_mem_cons free
    rw [pieces, if_neg (Ne.symm other), ih free]

/-- Up to the first separator there is one piece, and the rest is split as if it stood alone. -/
theorem pieces_append {separator : Char} {piece : List Char} (rest : List Char)
    (free : separator ∉ piece) :
    pieces separator (piece ++ separator :: rest) = piece :: pieces separator rest := by
  induction piece with
  | nil => rw [List.nil_append, pieces, if_pos rfl]
  | cons c rest ih =>
    obtain ⟨other, free⟩ := List.ne_and_not_mem_of_not_mem_cons free
    rw [List.cons_append, pieces, if_neg (Ne.symm other), ih free]

/-- Pieces that each come after a separator are found again. -/
theorem pieces_flatMap {separator : Char} {steps : List (List Char)}
    (free : ∀ step ∈ steps, separator ∉ step) : ∀ {piece : List Char}, separator ∉ piece →
    pieces separator (piece ++ steps.flatMap (separator :: ·)) = piece :: steps := by
  induction steps with
  | nil =>
    intro piece first
    rw [List.flatMap_nil, List.append_nil, pieces_of_free first]
  | cons step rest ih =>
    intro piece first
    obtain ⟨next, later⟩ := List.forall_mem_cons.mp free
    rw [List.flatMap_cons, List.cons_append, pieces_append _ first, ih later next]

/-- Joined texts after the first each bring their separator. -/
theorem intercalate_cons (separator : Char) (first : List Char) (rest : List (List Char)) :
    [separator].intercalate (first :: rest) = first ++ rest.flatMap (separator :: ·) := by
  induction rest generalizing first with
  | nil => simp
  | cons next rest ih => rw [List.intercalate_cons_cons, ih, List.flatMap_cons]; simp

/-- Pieces with the separator between neighbours are found again. -/
theorem pieces_intercalate {separator : Char} {steps : List (List Char)} (some : steps ≠ [])
    (free : ∀ step ∈ steps, separator ∉ step) :
    pieces separator ([separator].intercalate steps) = steps := by
  cases steps with
  | nil => exact absurd rfl some
  | cons first rest =>
    obtain ⟨next, later⟩ := List.forall_mem_cons.mp free
    rw [intercalate_cons, pieces_flatMap later next]

end Pieces

section Cuts

variable {separator : Char} {text before after : List Char}

/-- A cut at the first separator leaves none before it. -/
theorem of_cutFirst? (cut : cutFirst? separator text = some (before, after)) :
    text = before ++ separator :: after ∧ separator ∉ before := by
  induction text generalizing before with
  | nil => contradiction
  | cons c rest ih =>
    rw [cutFirst?] at cut
    split at cut
    · rename_i same
      obtain ⟨rfl, rfl⟩ := Prod.mk.inj (Option.some.inj cut)
      exact ⟨by rw [same, List.nil_append], List.not_mem_nil⟩
    · rename_i other
      obtain ⟨⟨first, second⟩, later, same⟩ := Option.map_eq_some_iff.mp cut
      obtain ⟨rfl, rfl⟩ := Prod.mk.inj same
      obtain ⟨rfl, free⟩ := ih later
      refine ⟨rfl, fun member => ?_⟩
      exact (List.mem_cons.mp member).elim (fun same => other same.symm) free

/-- A text without the separator cannot be cut. -/
theorem cutFirst?_of_free (free : separator ∉ text) : cutFirst? separator text = none := by
  induction text with
  | nil => rfl
  | cons c rest ih =>
    obtain ⟨other, free⟩ := List.ne_and_not_mem_of_not_mem_cons free
    rw [cutFirst?, if_neg (Ne.symm other), ih free, Option.map_none]

/-- A text that cannot be cut does not have the separator. -/
theorem free_of_cutFirst? (none : cutFirst? separator text = none) : separator ∉ text := by
  intro member
  obtain ⟨before, after, rfl, free⟩ := List.eq_append_cons_of_mem member
  rw [cutFirst?_append _ free] at none
  contradiction

/-- A text is cut at the last separator, after which there is no other. -/
theorem cutLast?_append (before : List Char) (free : separator ∉ after) :
    cutLast? separator (before ++ separator :: after) = some (before, after) := by
  have turned : (before ++ separator :: after).reverse =
      after.reverse ++ separator :: before.reverse := by simp
  rw [cutLast?, turned, cutFirst?_append _ (by simpa using free), Option.map_some]
  dsimp only
  rw [List.reverse_reverse, List.reverse_reverse]

/-- A cut at the last separator leaves none after it. -/
theorem of_cutLast? (cut : cutLast? separator text = some (before, after)) :
    text = before ++ separator :: after ∧ separator ∉ after := by
  obtain ⟨⟨first, second⟩, found, same⟩ := Option.map_eq_some_iff.mp cut
  obtain ⟨rfl, rfl⟩ := Prod.mk.inj same
  obtain ⟨turned, free⟩ := of_cutFirst? found
  refine ⟨?_, by simpa using free⟩
  rw [← List.reverse_reverse text, turned]
  simp

/-- What is dropped from the end of a text is the closing mark. -/
theorem of_dropEnd? {closing : Char} (dropped : dropEnd? closing text = some before) :
    text = before ++ [closing] := by
  unfold dropEnd? at dropped
  split at dropped
  · contradiction
  · rename_i c rest turned
    split at dropped
    · rename_i same
      obtain rfl := Option.some.inj dropped
      rw [← List.reverse_reverse text, turned, same, List.reverse_cons]
    · contradiction

end Cuts

section Lines

theorem lines_cons {c : Char} {rest : List Char} (other : c ≠ '\n')
    (noEnd : c = '\r' → rest.head? ≠ some '\n') :
    lines (c :: rest) =
      match lines rest with
      | [] => [[c]]
      | line :: others => (c :: line) :: others := by
  have noPair : ∀ later, c = '\r' → rest = '\n' :: later → False := by
    rintro later rfl rfl
    exact noEnd rfl rfl
  exact lines.eq_4 c rest other noPair

/-- A line without a line feed in it is found again. A carriage return at its end would count as a
part of the end of the line. -/
theorem lines_append {line : List Char} (rest : List Char) (feedless : '\n' ∉ line)
    (noReturn : line.getLast? ≠ some '\r') :
    lines (line ++ '\n' :: rest) = line :: lines rest := by
  induction line with
  | nil => rw [List.nil_append, lines]
  | cons c line ih =>
    obtain ⟨other, later⟩ := List.ne_and_not_mem_of_not_mem_cons feedless
    rw [List.cons_append, lines_cons (Ne.symm other)]
    · cases line with
      | nil => rw [List.nil_append, lines]
      | cons d line => rw [ih later (by rwa [List.getLast?_cons_cons] at noReturn)]
    · rintro rfl
      cases line with
      | nil => exact absurd rfl noReturn
      | cons d line =>
        exact fun same => later (List.mem_cons.mpr (.inl (Option.some.inj same).symm))

/-- Texts that are each ended by a line feed are the lines of what they make. -/
theorem lines_flatMap {texts : List (List Char)} (feedless : ∀ text ∈ texts, '\n' ∉ text)
    (noReturn : ∀ text ∈ texts, text.getLast? ≠ some '\r') :
    lines (texts.flatMap (· ++ ['\n'])) = texts := by
  induction texts with
  | nil => rfl
  | cons text rest ih =>
    obtain ⟨first, feedless⟩ := List.forall_mem_cons.mp feedless
    obtain ⟨first', noReturn⟩ := List.forall_mem_cons.mp noReturn
    rw [List.flatMap_cons, List.append_assoc, List.singleton_append, lines_append _ first first',
      ih feedless noReturn]

/-- No line holds a line feed. -/
theorem feedless_of_mem_lines {text : List Char} :
    ∀ line ∈ lines text, '\n' ∉ line := by
  fun_induction lines text with
  | case1 => exact fun _ member => absurd member List.not_mem_nil
  | case2 rest ih => exact List.forall_mem_cons.mpr ⟨List.not_mem_nil, ih⟩
  | case3 rest ih => exact List.forall_mem_cons.mpr ⟨List.not_mem_nil, ih⟩
  | case4 c rest other _ _ ih =>
    exact List.forall_mem_singleton.mpr fun member => other (List.mem_singleton.mp member).symm
  | case5 c rest other _ line others found ih =>
    rw [found] at ih
    obtain ⟨first, later⟩ := List.forall_mem_cons.mp ih
    exact List.forall_mem_cons.mpr
      ⟨fun member => (List.mem_cons.mp member).elim (fun same => other same.symm) first, later⟩

end Lines

section Blanks

/-- Whether the last character of a text is a blank. -/
def endsBlank (text : List Char) : Bool :=
  text.getLast?.any isBlank

/-- Letters are not blank. -/
theorem isBlank_of_isAlpha {c : Char} (letter : c.isAlpha = true) : isBlank c = false := by
  have bounds : 65 ≤ c.toNat ∧ c.toNat ≤ 90 ∨ 97 ≤ c.toNat ∧ c.toNat ≤ 122 := by
    change (decide ('A'.val ≤ c.val ∧ c.val ≤ 'Z'.val) ||
      (decide ('a'.val ≤ c.val) && decide (c.val ≤ 'z'.val))) = true at letter
    simpa [UInt32.le_iff_toNat_le] using letter
  simp only [isBlank, Bool.or_eq_false_iff, Bool.and_eq_false_iff, decide_eq_false_iff_not,
    beq_eq_false_iff_ne]
  omega

/-- Nothing is trimmed off a text that does not end in blanks. -/
theorem trimEnd_eq_self {text : List Char} (bare : endsBlank text = false) :
    trimEnd text = text := by
  rw [endsBlank, List.getLast?_eq_head?_reverse] at bare
  rw [trimEnd, List.reverse_eq_iff]
  cases turned : text.reverse with
  | nil => rfl
  | cons c rest =>
    rw [turned] at bare
    exact List.dropWhile_cons_of_neg (by simpa using bare)

/-- A trimmed text does not end in blanks. -/
theorem endsBlank_trimEnd (text : List Char) : endsBlank (trimEnd text) = false := by
  rw [endsBlank, trimEnd, List.getLast?_reverse]
  have := List.head?_dropWhile_not isBlank text.reverse
  cases found : (text.reverse.dropWhile isBlank).head? with
  | none => rfl
  | some c => simpa [found] using this

theorem endsBlank_of_append (before : List Char) {after : List Char}
    (bare : endsBlank (before ++ after) = false) : endsBlank after = false := by
  cases after with
  | nil => rfl
  | cons c rest =>
    rwa [endsBlank, List.getLast?_append, List.getLast?_cons, Option.some_or,
      ← List.getLast?_cons] at bare

/-- A text does not end in blanks if after a mark that is none it does not. -/
theorem endsBlank_append_cons (before : List Char) {mark : Char} {after : List Char}
    (bareMark : isBlank mark = false) (bare : endsBlank after = false) :
    endsBlank (before ++ mark :: after) = false := by
  cases after with
  | nil => simpa [endsBlank] using bareMark
  | cons c rest =>
    rwa [endsBlank, List.getLast?_append, List.getLast?_cons_cons, List.getLast?_cons,
      Option.some_or, ← List.getLast?_cons]

/-- A text with a mark in it that is not blank is not all blank. -/
theorem allBlank_append_cons (before : List Char) {mark : Char} (after : List Char)
    (bareMark : isBlank mark = false) : allBlank (before ++ mark :: after) = false := by
  simp [allBlank, bareMark]

/-- Trimming leaves only characters of the text. -/
theorem mem_of_mem_trimEnd {text : List Char} {c : Char} (member : c ∈ trimEnd text) :
    c ∈ text := by
  have kept := (List.dropWhile_sublist isBlank).mem (List.mem_reverse.mp member)
  exact List.mem_reverse.mp kept

end Blanks

end Text

end TraversalQuery
