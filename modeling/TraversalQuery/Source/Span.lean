/-!
# Places in a source text

A span is the range of bytes from one offset up to another. Offsets are kept in thirty-two bits:
a place beyond that many bytes is taken for the last one that can be named.
-/

namespace TraversalQuery

/-- The bytes of a source text from `start` up to, not including, `stop`. -/
structure Span where
  start : Nat
  stop : Nat
deriving DecidableEq, Inhabited, Repr

namespace Span

/-- The largest offset that a span can name. -/
def limit : Nat := Nat.pow 2 32 - 1

/-- An offset, or the limit if it lies beyond. -/
def clamp (offset : Nat) : Nat :=
  if offset ≤ limit then offset else limit

/-- The span between two offsets, each brought within the limit. -/
def ofRange (start stop : Nat) : Span :=
  ⟨clamp start, clamp stop⟩

/-- The span at the start of a text, before anything is read. -/
def zero : Span := ⟨0, 0⟩

/-- The smallest span that holds both. -/
def merge (first second : Span) : Span :=
  ⟨if first.start ≤ second.start then first.start else second.start,
    if first.stop ≤ second.stop then second.stop else first.stop⟩

/-- A span as messages write it. -/
def text (span : Span) : String :=
  s!"{span.start}..{span.stop}"

/-- An offset within the limit stays. -/
theorem clamp_of_le {offset : Nat} (within : offset ≤ limit) : clamp offset = offset := by
  simp [clamp, within]

end Span

end TraversalQuery
