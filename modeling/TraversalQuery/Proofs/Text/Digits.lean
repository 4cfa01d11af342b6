import Mathlib.Data.List.Basic
import TraversalQuery.Text.Blank
import TraversalQuery.Text.Digits

/-!
# Numbers as they are written

A number is written in decimal digits and read back from them. No digit is a blank or a mark that
stands between numbers.
-/

namespace TraversalQuery

namespace Text

/-- Numbers are written in digits. -/
theorem isDigit_of_mem_toString {n : Nat} {c : Char} (member : c ∈ (toString n).toList) :
    c.isDigit = true := by
  rw [Nat.toString_eq_repr, Nat.toList_repr] at member
  exact Nat.isDigit_of_mem_toDigits (by decide) (by decide) member

theorem toString_ne_nil (n : Nat) : (toString n).toList ≠ [] := by
  rw [Nat.toString_eq_repr, Nat.toList_repr]
  exact Nat.toDigits_ne_nil

/-- The value of the digits of a number is the number. -/
theorem decimalValue_toString (n : Nat) : decimalValue (toString n).toList = n := by
  rw [Nat.toString_eq_repr, Nat.toList_repr]
  calc
    decimalValue (Nat.toDigits 10 n) = Nat.ofDigitChars 10 (Nat.toDigits 10 n) 0 := by
      simp only [decimalValue, digitValue, Nat.ofDigitChars_eq_foldl, Nat.mul_comm]
    _ = n := Nat.ofDigitChars_ten_toDigits

/-- A mark that is no digit does not stand in a number. -/
theorem not_mem_toString (n : Nat) {mark : Char} (noDigit : mark.isDigit = false) :
    mark ∉ (toString n).toList :=
  fun member => absurd (isDigit_of_mem_toString member) (by rw [noDigit]; decide)

/-- Any digits are read as a number. -/
theorem unsigned?_of_digits {digits : List Char} (some : digits ≠ [])
    (every : ∀ c ∈ digits, c.isDigit = true) :
    unsigned? digits = .some (decimalValue digits) := by
  unfold unsigned?
  split
  · exact absurd (every '+' List.mem_cons_self) (by decide)
  · rw [if_neg]
    simpa [some] using every

/-- A number that is written is read back. -/
theorem unsigned?_toString (n : Nat) : unsigned? (toString n).toList = some n := by
  rw [unsigned?_of_digits (toString_ne_nil n) fun _ => isDigit_of_mem_toString,
    decimalValue_toString]

/-- Digits are not blank. -/
theorem isBlank_of_isDigit {c : Char} (digit : c.isDigit = true) : isBlank c = false := by
  obtain ⟨least, most⟩ : 48 ≤ c.toNat ∧ c.toNat ≤ 57 := by
    simpa [Char.isDigit, UInt32.le_iff_toNat_le] using digit
  simp only [isBlank, Bool.or_eq_false_iff, Bool.and_eq_false_iff, decide_eq_false_iff_not,
    beq_eq_false_iff_ne]
  omega

theorem dropWhile_isBlank_eq_self {text : List Char} (bare : ∀ c ∈ text, isBlank c = false) :
    text.dropWhile isBlank = text := by
  cases text with
  | nil => rfl
  | cons c rest => exact List.dropWhile_cons_of_neg (by rw [bare c List.mem_cons_self]; decide)

/-- There is no blank to take off a number. -/
theorem trim_toString (n : Nat) : trim (toString n).toList = (toString n).toList := by
  have bare : ∀ c ∈ (toString n).toList, isBlank c = false :=
    fun _ member => isBlank_of_isDigit (isDigit_of_mem_toString member)
  rw [trim, trimStart, dropWhile_isBlank_eq_self bare, trimEnd, dropWhile_isBlank_eq_self,
    List.reverse_reverse]
  exact fun c member => bare c (List.mem_reverse.mp member)

end Text

end TraversalQuery
