import JoinPlan.Binary64.Basic

/-!
# Rounding to the nearest double

Every function here rounds an exact ratio of natural numbers to the nearest
double and a half to the even neighbour. The results are magnitude bits, which
may be those of infinity or beyond; `ofBits?` refuses these.

A magnitude with `s` exponent steps above the smallest has its units in steps
of `2 ^ s`, and its bits are `s * 2 ^ 52` plus the number of steps. A carry out of
the fraction moves into the exponent by that addition alone.
-/

namespace JoinPlan.Binary64

/-- The natural number nearest to `num / den`; a half goes to the even neighbour. -/
def roundHalfEven (num den : Nat) : Nat :=
  let quotient := num / den
  let twice := 2 * (num % den)
  if den < twice || (twice == den && quotient % 2 == 1) then quotient + 1 else quotient

/-- The magnitude bits nearest to the ratio `num / den` of units `2 ^ -1074`. -/
def nearestUnits (num den : Nat) : Nat :=
  let steps := (num / den).log2 - 52
  steps * exponentStep + roundHalfEven num (den * Nat.pow 2 steps)

/-- The magnitude bits nearest to `num / den`. -/
def nearest (num den : Nat) : Nat :=
  nearestUnits (num * unitsOfOne) den

/-- The bits of the rounded product of two magnitudes. -/
def mulBits (a b : Nat) : Nat :=
  nearestUnits (unitsOf a * unitsOf b) unitsOfOne

/-- The bits of the rounded quotient of two magnitudes. -/
def divBits (a b : Nat) : Nat :=
  nearest (unitsOf a) (unitsOf b)

end JoinPlan.Binary64
