import TraversalQuery.Number.Shortest

/-!
# How doubles are written

Both ways of writing a double use its shortest digits. Messages write every double positionally and
drop an empty fraction; data keeps one digit after the point and turns to an exponent for very
small and very large magnitudes.
-/

namespace TraversalQuery

namespace Decimal

/-- The decimal digits of a number. -/
def digitText (value : Nat) : String :=
  String.ofList (Nat.toDigits 10 value)

/-- A run of zeros. -/
def zeros (count : Nat) : String :=
  String.ofList (List.replicate count '0')

/-- The digits with a point after the first `whole` of them. -/
def pointed (digits : String) (whole : Nat) : String :=
  String.ofList (digits.toList.take whole) ++ "." ++ String.ofList (digits.toList.drop whole)

/-- A decimal written without an exponent and without an empty fraction. -/
def positional (d : Decimal) : String :=
  let digits := digitText d.digits
  let whole := d.power + digits.length
  if 0 ≤ d.power then digits ++ zeros d.power.toNat
  else if 0 < whole then pointed digits whole.toNat
  else "0." ++ zeros (-whole).toNat ++ digits

/-- An exponent with its sign. -/
def signedExponent (power : Int) : String :=
  if power < 0 then s!"e{power}" else s!"e+{power}"

/-- A decimal with at least one digit after the point, and with an exponent where the point would
stand more than sixteen digits right or more than four zeros left of the first digit. -/
def scientific (d : Decimal) : String :=
  let digits := digitText d.digits
  let whole := d.power + digits.length
  if 0 ≤ d.power ∧ whole ≤ 16 then digits ++ zeros d.power.toNat ++ ".0"
  else if 0 < whole ∧ whole ≤ 16 then pointed digits whole.toNat
  else if -5 < whole ∧ whole ≤ 0 then "0." ++ zeros (-whole).toNat ++ digits
  else if digits.length = 1 then digits ++ signedExponent (whole - 1)
  else pointed digits 1 ++ signedExponent (whole - 1)

end Decimal

namespace Binary64

/-- The minus sign of a negative number. -/
def signText (negative : Bool) : String :=
  if negative then "-" else ""

/-- A double as messages write it. -/
def messageText : Binary64 → String
  | .infinite negative => signText negative ++ "inf"
  | .finite negative significand exponent =>
    signText negative ++ (shortest .up significand exponent).positional

/-- A double as data holds it; data has no infinities. -/
def dataText : Binary64 → String
  | .infinite _ => "null"
  | .finite negative significand exponent =>
    signText negative ++
      if significand = 0 then "0.0" else (shortest .even significand exponent).scientific

end Binary64

end TraversalQuery
