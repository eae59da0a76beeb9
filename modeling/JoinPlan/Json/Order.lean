import JoinPlan.Json.Basic

/-!
# The order of values

Sorting compares what is found in two documents, which may be nothing. Nothing
comes first, then null, truth values, numbers, strings, arrays and objects. Two
truth values, numbers or strings compare by value, strings by code points; other
values of one kind tie.
-/

namespace JoinPlan

namespace Value

/-- The place of a value's kind in the order. -/
def kindRank : Value → Nat
  | .null => 0
  | .bool _ => 1
  | .number _ => 2
  | .string _ => 3
  | .array _ => 4
  | .object _ => 5

/-- How two values compare that have an order of their own: truth values, numbers
or strings. -/
def compareSame? : Value → Value → Option Ordering
  | .bool a, .bool b => some (compare a.toNat b.toNat)
  | .number a, .number b => some (compare a.rank b.rank)
  | .string a, .string b => some (compare a b)
  | _, _ => none

/-- How two values compare. -/
def compareTo (a b : Value) : Ordering :=
  (compare a.kindRank b.kindRank).then ((compareSame? a b).getD .eq)

end Value

/-- How what is found in two documents compares. -/
def compareFound : Option Value → Option Value → Ordering
  | none, none => .eq
  | none, some _ => .lt
  | some _, none => .gt
  | some a, some b => a.compareTo b

end JoinPlan
