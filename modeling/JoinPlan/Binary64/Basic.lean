/-!
# Finite double-precision numbers

A finite number of the 64-bit binary format, held as its sign and the bits
below the sign. The bits are read as a natural number, `magnitude`, and the
larger magnitude is the larger absolute value; so `rank`, the magnitude with
the sign in front, orders the numbers as their values do. Both zeros have
rank `0`.

`units` is the absolute value itself, counted in units of the least positive
number, `2 ^ -1074`.
-/

namespace JoinPlan

/-- The magnitude bits of infinity: the first that stand for no finite number. -/
def Binary64.infinity : Nat := 0x7FF0000000000000

/-- A finite double. -/
structure Binary64 where
  negative : Bool
  magnitude : Nat
  magnitude_lt : magnitude < Binary64.infinity
deriving DecidableEq

namespace Binary64

/-- The magnitudes of one exponent: the fraction has 52 bits. -/
def exponentStep : Nat := 0x10000000000000

/-- The number one in units of `2 ^ -1074`. -/
def unitsOfOne : Nat := Nat.pow 2 1074

/-- The absolute value of the number with these magnitude bits, in units of
`2 ^ -1074`. The upper bits are the exponent; below the first exponent step the
bits count the units directly. -/
def unitsOf (bits : Nat) : Nat :=
  let exponent := bits / exponentStep
  let fraction := bits % exponentStep
  if exponent = 0 then fraction else (exponentStep + fraction) * Nat.pow 2 (exponent - 1)

/-- The key that orders doubles by value. -/
def rank (x : Binary64) : Int :=
  if x.negative then -(x.magnitude : Int) else x.magnitude

/-- The number with given magnitude bits, if it is finite. -/
def ofBits? (negative : Bool) (bits : Nat) : Option Binary64 :=
  if h : bits < infinity then some ⟨negative, bits, h⟩ else none

/-- Zero with a sign. -/
def zero (negative : Bool) : Binary64 := ⟨negative, 0, by decide⟩

end Binary64

end JoinPlan
