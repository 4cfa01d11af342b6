/-!
# Double-precision numbers

A double is kept as its sign, significand and binary exponent, so that rounding to it and printing
it are exact arithmetic on natural numbers. Its significand has at most 53 bits and fills them
unless the exponent is the smallest one; numbers that are not numbers do not occur.
-/

namespace TraversalQuery

/-- A double: `significand * 2 ^ exponent` with a sign, or an infinity. -/
inductive Binary64 where
  | finite (negative : Bool) (significand : Nat) (exponent : Int)
  | infinite (negative : Bool)
deriving DecidableEq, Inhabited, Repr

namespace Binary64

/-- The exponent of the smallest steps between doubles. -/
def leastExponent : Int := -1074

/-- The exponent of the largest steps between finite doubles. -/
def greatestExponent : Int := 971

/-- Zero with a sign. -/
def zero (negative : Bool) : Binary64 := .finite negative 0 leastExponent

/-- The same magnitude with the given sign. -/
def withSign (negative : Bool) : Binary64 → Binary64
  | .finite _ significand exponent => .finite negative significand exponent
  | .infinite _ => .infinite negative

/-- Whether the number is an infinity. -/
def isInfinite : Binary64 → Bool
  | .finite .. => false
  | .infinite _ => true

/-- `num / den` divided by `2 ^ exponent`, as a fraction. -/
def scaled (num den : Nat) (exponent : Int) : Nat × Nat :=
  match exponent with
  | .ofNat up => (num, den * Nat.pow 2 up)
  | .negSucc down => (num * Nat.pow 2 (down + 1), den)

/-- The natural number nearest to `num / den`, the even one of two. -/
def roundHalfEven (num den : Nat) : Nat :=
  let low := num / den
  let rest := num % den
  if 2 * rest < den then low
  else if den < 2 * rest then low + 1
  else if low % 2 = 0 then low else low + 1

/-- The exponent at which `num / den` has a significand of 53 bits, or the least exponent. -/
def exponentFor (num den : Nat) : Int :=
  let guess : Int := (num.log2 : Int) - den.log2 - 52
  let (top, bottom) := scaled num den guess
  let fitting := if top / bottom < Nat.pow 2 52 then guess - 1 else guess
  if fitting < leastExponent then leastExponent else fitting

/-- The double nearest to `num / den`, the one with the even significand of two; an infinity past
the largest finite double. -/
def ofRatio (negative : Bool) (num den : Nat) : Binary64 :=
  if num = 0 then zero negative
  else
    let exponent := exponentFor num den
    let (top, bottom) := scaled num den exponent
    let rounded := roundHalfEven top bottom
    let (significand, exponent) :=
      if rounded = Nat.pow 2 53 then (Nat.pow 2 52, exponent + 1) else (rounded, exponent)
    if greatestExponent < exponent then .infinite negative
    else .finite negative significand exponent

/-- The double nearest to a natural number. -/
def ofNat (value : Nat) : Binary64 := ofRatio false value 1

/-- The double nearest to `digits * 10 ^ power`. Powers far outside the range of doubles are told
apart first, so that no power of ten gets longer than it has to. -/
def ofDecimal (negative : Bool) (digits : Nat) (power : Int) : Binary64 :=
  if digits = 0 then zero negative
  else if 400 < power then .infinite negative
  else if power + digits.log2 + 1 < -400 then zero negative
  else
    match power with
    | .ofNat up => ofRatio negative (digits * Nat.pow 10 up) 1
    | .negSucc down => ofRatio negative digits (Nat.pow 10 (down + 1))

/-- The magnitude of a finite double as a fraction. -/
def magnitude (significand : Nat) (exponent : Int) : Nat × Nat :=
  match exponent with
  | .ofNat up => (significand * Nat.pow 2 up, 1)
  | .negSucc down => (significand, Nat.pow 2 (down + 1))

/-- The product of two magnitudes, rounded. -/
def times (x y : Binary64) : Binary64 :=
  match x, y with
  | .finite negative m e, .finite _ n f =>
    let (a, b) := magnitude m e
    let (c, d) := magnitude n f
    ofRatio negative (a * c) (b * d)
  | .finite negative .., .infinite _ => .infinite negative
  | .infinite negative, _ => .infinite negative

/-- The quotient of two magnitudes, rounded; the divisor is not zero. -/
def dividedBy (x y : Binary64) : Binary64 :=
  match x, y with
  | .finite negative m e, .finite _ n f =>
    let (a, b) := magnitude m e
    let (c, d) := magnitude n f
    ofRatio negative (a * d) (b * c)
  | .finite negative .., .infinite _ => zero negative
  | .infinite negative, _ => .infinite negative

end Binary64

end TraversalQuery
