import JoinPlan.Binary64.Basic

/-!
# The shortest decimal of a double

Of all decimals that round to a double, `shortest` gives one with the fewest
digits, and among these the nearest. The decimals that round to it lie between
the midpoints to its two neighbours, ends included when its last bit is even.
For one digit, two, and so on up to seventeen, the two multiples of the power
of ten around the double are tried; the first grid with a hit wins.

Values are counted in half units, `2 ^ -1075`, so that midpoints are natural
numbers, and scaled by a power of ten where the grid is finer than one.
-/

namespace JoinPlan

/-- The number `digits * 10 ^ exponent`. -/
structure Decimal where
  digits : Nat
  exponent : Int
deriving DecidableEq, Repr

namespace Binary64

/-- The step of the grid `10 ^ place` in half units, and the factor by which
all other values are scaled to be compared with it. -/
def gridStep (place : Int) : Nat × Nat :=
  if 0 ≤ place then (Nat.pow 10 place.toNat * (2 * unitsOfOne), 1)
  else (2 * unitsOfOne, Nat.pow 10 (-place).toNat)

/-- The multiple of `10 ^ place` nearest to the number with these bits, if a
multiple rounds to it. Of two that are equally near the even one is taken. -/
def onGrid? (bits : Nat) (place : Int) : Option Nat :=
  let (step, scale) := gridStep place
  let value := 2 * unitsOf bits * scale
  let low := (unitsOf (bits - 1) + unitsOf bits) * scale
  let high := (unitsOf bits + unitsOf (bits + 1)) * scale
  let readsBack (multiple : Nat) : Bool :=
    if bits % 2 == 0 then low ≤ multiple * step && multiple * step ≤ high
    else low < multiple * step && multiple * step < high
  let below := value / step
  let twice := 2 * (value % step)
  match readsBack below, readsBack (below + 1) with
  | true, true =>
    if twice < step || (twice == step && below % 2 == 0) then some below else some (below + 1)
  | true, false => some below
  | false, true => some (below + 1)
  | false, false => none

/-- The decimal place of the first digit of a magnitude other than zero. -/
def leadingPlace (bits : Nat) : Int :=
  let units := unitsOf bits
  if unitsOfOne ≤ units then
    ((Nat.toDigits 10 (units / unitsOfOne)).length : Int) - 1
  else
    match (List.range 325).find? fun places => unitsOfOne ≤ units * Nat.pow 10 places with
    | some places => -(places : Int)
    | none => 0

/-- The decimal with its trailing zeros moved into the exponent. -/
def dropTrailingZeros : Nat → Decimal → Decimal
  | 0, d => d
  | fuel + 1, d =>
    if d.digits % 10 == 0 && d.digits != 0 then
      dropTrailingZeros fuel ⟨d.digits / 10, d.exponent + 1⟩
    else d

/-- The shortest decimal that rounds to the magnitude, and the nearest of these. -/
def shortest (bits : Nat) : Decimal :=
  if bits = 0 then ⟨0, 0⟩
  else
    let places := (List.range 17).map fun (count : Nat) => leadingPlace bits - (count : Int)
    match places.findSome? fun place => (onGrid? bits place).map fun n => (n, place) with
    | some (n, place) => dropTrailingZeros 20 ⟨n, place⟩
    | none => ⟨0, 0⟩

end Binary64

end JoinPlan
