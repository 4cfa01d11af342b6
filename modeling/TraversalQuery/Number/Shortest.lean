import TraversalQuery.Number.Binary64

/-!
# The fewest digits that read back

A finite double stands for the reals that round to it, ends included when its significand is even.
`Binary64.shortest` picks the decimal with the fewest digits among them, and the nearest to the
double of those; how an exact tie goes is the caller's choice.
-/

namespace TraversalQuery

/-- A decimal magnitude: `digits * 10 ^ power`. -/
structure Decimal where
  digits : Nat
  power : Int
deriving DecidableEq, Inhabited, Repr

/-- Which of two equally near decimals is taken. -/
inductive TieRule where
  | up
  | even
deriving DecidableEq, Inhabited, Repr

namespace Decimal

/-- The same magnitude with no zeros at the end of its digits; `fuel` bounds their number. -/
def stripZeros : Nat → Decimal → Decimal
  | 0, d => d
  | fuel + 1, d =>
    if d.digits ≠ 0 ∧ d.digits % 10 = 0 then stripZeros fuel ⟨d.digits / 10, d.power + 1⟩ else d

end Decimal

namespace Binary64

/-- The largest power of ten not above `num / den`, with both positive. -/
def decimalExponent (num den : Nat) : Int :=
  let guess : Int := (((num.log2 : Int) - den.log2) * 30103).fdiv 100000
  let fits (power : Int) : Bool :=
    match power with
    | .ofNat up => Nat.pow 10 up * den ≤ num
    | .negSucc down => den ≤ num * Nat.pow 10 (down + 1)
  if fits (guess + 1) then guess + 1 else if fits guess then guess else guess - 1

/-- A grid point next to the double, if one reads back: the points are the multiples of
`10 ^ power`, and the double and the ends of its reals are `value`, `low` and `high` quarter steps
of `2 ^ (exponent - 2)`. -/
def gridPoint? (tie : TieRule) (closed : Bool) (value low high : Nat) (quarter power : Int) :
    Option Nat :=
  let grid := Nat.pow 10 power.toNat * Nat.pow 2 (-quarter).toNat
  let step := Nat.pow 2 quarter.toNat * Nat.pow 10 (-power).toNat
  let below := value * step / grid
  let above := below + 1
  let reads (point : Nat) : Bool :=
    if closed then decide (low * step ≤ point * grid) && decide (point * grid ≤ high * step)
    else decide (low * step < point * grid) && decide (point * grid < high * step)
  match reads below, reads above with
  | false, false => none
  | true, false => some below
  | false, true => some above
  | true, true =>
    let under := value * step - below * grid
    let excess := above * grid - value * step
    if under < excess then some below
    else if excess < under then some above
    else match tie with
      | .up => some above
      | .even => some (if below % 2 = 0 then below else above)

/-- The first grid with a point that reads back, from the coarsest one on. -/
def firstGrid (tie : TieRule) (closed : Bool) (value low high : Nat) (quarter : Int) :
    Nat → Int → Decimal
  | 0, power => ⟨value * Nat.pow 2 quarter.toNat, power⟩
  | grids + 1, power =>
    match gridPoint? tie closed value low high quarter power with
    | some point => ⟨point, power⟩
    | none => firstGrid tie closed value low high quarter grids (power - 1)

/-- The shortest decimal that rounds to a finite double, nearest first. -/
def shortest (tie : TieRule) (significand : Nat) (exponent : Int) : Decimal :=
  if significand = 0 then ⟨0, 0⟩
  else
    let (num, den) := magnitude significand exponent
    let value := 4 * significand
    let low :=
      if significand = Nat.pow 2 52 ∧ leastExponent < exponent then value - 1 else value - 2
    (firstGrid tie (significand % 2 == 0) value low (value + 2) (exponent - 2) 18
      (decimalExponent num den)).stripZeros 400

end Binary64

end TraversalQuery
