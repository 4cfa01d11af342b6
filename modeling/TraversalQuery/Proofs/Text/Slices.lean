import Mathlib.Data.List.Basic
import TraversalQuery.Source.BlockString

/-!
# Slices of texts

A place in a text is the number of bytes before it. There is a slice from one place to another when
neither lies within a character or beyond the text, and the first does not come after the second.
-/

namespace TraversalQuery

namespace Text

open BlockString (dropBytes?)

/-- The place of the first `mark` in a text. -/
def placeOf? (mark : Char) : List Char → Option Nat
  | [] => none
  | c :: rest => if c = mark then some 0 else (placeOf? mark rest).map (c.utf8Size + ·)

/-- The text up to a place. -/
def takeBytes? : Nat → List Char → Option (List Char)
  | 0, _ => some []
  | _ + 1, [] => none
  | count + 1, c :: rest =>
    if c.utf8Size ≤ count + 1 then (takeBytes? (count + 1 - c.utf8Size) rest).map (c :: ·) else none

/-- The text from one place up to another. -/
def slice? (start stop : Nat) (text : List Char) : Option (List Char) :=
  if start ≤ stop then (takeBytes? stop text).bind (dropBytes? start) else none

section Places

variable {mark : Char} {before : List Char}

/-- A mark is found behind the bytes of what comes before it. -/
theorem placeOf?_append (after : List Char) (free : mark ∉ before) :
    placeOf? mark (before ++ mark :: after) = some (byteLength before) := by
  induction before with
  | nil => simp [placeOf?]
  | cons c rest ih =>
    obtain ⟨other, free⟩ := List.ne_and_not_mem_of_not_mem_cons free
    simp [placeOf?, Ne.symm other, ih free]

/-- The place of a mark that comes after another one. -/
theorem placeOf?_behind {other : Char} {between : List Char} (after : List Char)
    (free : mark ∉ before) (apart : mark ≠ other) (free' : mark ∉ between) :
    placeOf? mark (before ++ other :: (between ++ mark :: after)) =
      some (byteLength before + other.utf8Size + byteLength between) := by
  have none : mark ∉ before ++ other :: between := by simp [free, apart, free']
  have place := placeOf?_append after none
  rwa [List.append_assoc, List.cons_append, byteLength_append, byteLength_cons,
    ← Nat.add_assoc] at place

/-- A mark that a text does not have has no place in it. -/
theorem placeOf?_of_free {text : List Char} (free : mark ∉ text) : placeOf? mark text = none := by
  induction text with
  | nil => rfl
  | cons c rest ih =>
    obtain ⟨other, free⟩ := List.ne_and_not_mem_of_not_mem_cons free
    rw [placeOf?, if_neg (Ne.symm other), ih free, Option.map_none]

end Places

section Bytes

variable {c : Char} {count : Nat}

theorem dropBytes?_cons (fits : c.utf8Size ≤ count) (rest : List Char) :
    dropBytes? count (c :: rest) = dropBytes? (count - c.utf8Size) rest := by
  have positive := c.utf8Size_pos
  obtain ⟨before, rfl⟩ := Nat.exists_eq_succ_of_ne_zero (n := count) (by omega)
  rw [dropBytes?, if_pos fits]

theorem takeBytes?_cons (fits : c.utf8Size ≤ count) (rest : List Char) :
    takeBytes? count (c :: rest) = (takeBytes? (count - c.utf8Size) rest).map (c :: ·) := by
  have positive := c.utf8Size_pos
  obtain ⟨before, rfl⟩ := Nat.exists_eq_succ_of_ne_zero (n := count) (by omega)
  rw [takeBytes?, if_pos fits]

/-- Dropping the bytes of what comes first leaves the rest. -/
theorem dropBytes?_append (before after : List Char) :
    dropBytes? (byteLength before) (before ++ after) = some after := by
  induction before with
  | nil => rw [byteLength_nil, List.nil_append, dropBytes?]
  | cons c rest ih =>
    rw [byteLength_cons, List.cons_append, dropBytes?_cons (Nat.le_add_right _ _),
      Nat.add_sub_cancel_left, ih]

/-- Taking the bytes of what comes first takes it and no more. -/
theorem takeBytes?_append (before after : List Char) :
    takeBytes? (byteLength before) (before ++ after) = some before := by
  induction before with
  | nil => rw [byteLength_nil, takeBytes?]
  | cons c rest ih =>
    rw [byteLength_cons, List.cons_append, takeBytes?_cons (Nat.le_add_right _ _),
      Nat.add_sub_cancel_left, ih, Option.map_some]

/-- What is left of a text when bytes are dropped comes after as many bytes. -/
theorem of_dropBytes? {text after : List Char} (dropped : dropBytes? count text = some after) :
    ∃ before, text = before ++ after ∧ byteLength before = count := by
  fun_induction dropBytes? count text with
  | case1 =>
    cases dropped
    exact ⟨[], rfl, rfl⟩
  | case2 => contradiction
  | case3 count c rest fits ih =>
    obtain ⟨before, rfl, bytes⟩ := ih dropped
    exact ⟨c :: before, rfl, by rw [byteLength_cons]; omega⟩
  | case4 => contradiction

/-- A part of a text is the slice between the places where it begins and ends. -/
theorem slice?_append {start stop : Nat} {before part : List Char} (after : List Char)
    (begins : start = byteLength before) (ends : stop = byteLength before + byteLength part) :
    slice? start stop (before ++ part ++ after) = some part := by
  rw [begins, ends, ← byteLength_append, slice?, takeBytes?_append, Option.bind_some,
    dropBytes?_append, if_pos (by simp)]

end Bytes

end Text

end TraversalQuery
