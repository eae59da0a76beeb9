import JoinPlan.Binary64.Round
import JoinPlan.Binary64.Shortest

/-!
# Doubles from decimals

Two ways to read a decimal as a double.

`ofDecimal` rounds once: its result is the double nearest to the decimal.

`scaled` computes in double arithmetic: the digits are rounded to a double,
which is multiplied or divided by a power of ten, itself a double. It is exact
for short literals, and may miss the nearest double by a last bit for long
ones. Negative exponents below `-308` divide in steps of `10 ^ 308`.
-/

namespace JoinPlan.Binary64

/-- The magnitude bits nearest to a decimal. Exponents so large that the result
is certainly zero or infinity are not expanded. -/
def ofDecimal (d : Decimal) : Nat :=
  let length : Int := (Nat.toDigits 10 d.digits).length
  if d.digits = 0 then 0
  else if d.exponent + length > 400 then infinity
  else if d.exponent + length < -400 then 0
  else if 0 ≤ d.exponent then nearest (d.digits * Nat.pow 10 d.exponent.toNat) 1
  else nearest d.digits (Nat.pow 10 (-d.exponent).toNat)

/-- The magnitude bits of the double nearest to a power of ten. -/
def powerOfTen (exponent : Nat) : Nat :=
  nearest (Nat.pow 10 exponent) 1

/-- A magnitude divided by a power of ten, in steps of at most `10 ^ 308`. -/
def divPowerOfTen (bits exponent : Nat) : Nat :=
  if exponent ≤ 308 then divBits bits (powerOfTen exponent)
  else if bits = 0 then 0
  else divPowerOfTen (divBits bits (powerOfTen 308)) (exponent - 308)
termination_by exponent
decreasing_by omega

/-- The digits as a double, scaled by a power of ten in double arithmetic.
`none` when the result is not finite. -/
def scaled (negative : Bool) (d : Decimal) : Option Binary64 :=
  let significand := nearest d.digits 1
  if 0 ≤ d.exponent then
    if d.exponent ≤ 308 then
      ofBits? negative (mulBits significand (powerOfTen d.exponent.toNat))
    else if significand = 0 then some (zero negative)
    else none
  else ofBits? negative (divPowerOfTen significand (-d.exponent).toNat)

end JoinPlan.Binary64
