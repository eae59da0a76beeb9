import JoinPlan.Filter.Pattern
import JoinPlan.Json.Order

/-!
# Predicates

A predicate says something about one value: how it compares with a bound, that
it equals an operand, or that a pattern meets it. Of an array it holds when it
holds of an item, at any depth.

Comparison is between two numbers, two strings or two truth values; between
kinds nothing compares. Numbers are equal by value, other values as documents.
-/

namespace JoinPlan

/-- The four orderings a value can be asked for. -/
inductive Comparison where
  | less
  | lessOrEqual
  | greater
  | greaterOrEqual
deriving DecidableEq, Repr

/-- Whether the comparison asks for this ordering. -/
def Comparison.accepts : Comparison → Ordering → Bool
  | .less, o => o == .lt
  | .lessOrEqual, o => o != .gt
  | .greater, o => o == .gt
  | .greaterOrEqual, o => o != .lt

/-- A property of a value. -/
inductive Predicate where
  | compare (comparison : Comparison) (bound : Value)
  | pattern (kind : PatternKind) (text : String)
  | equals (operand : Value)

mutual

/-- Whether a property holds of a value, or of an item if the value is an array. -/
def Value.someElement (p : Value → Bool) : Value → Bool
  | .array items => Value.someItem p items
  | value => p value

/-- Whether a property holds of an element of some item. -/
def Value.someItem (p : Value → Bool) : List Value → Bool
  | [] => false
  | item :: rest => item.someElement p || Value.someItem p rest

end

/-- Equality in filters: numbers by value, all else as documents. -/
def Value.equalTo : Value → Value → Bool
  | .number a, .number b => a.rank == b.rank
  | a, b => a.same b

namespace Predicate

/-- The short name of a predicate's operation. -/
def operation : Predicate → String
  | .compare .less _ => "lt"
  | .compare .lessOrEqual _ => "lte"
  | .compare .greater _ => "gt"
  | .compare .greaterOrEqual _ => "gte"
  | .pattern .exact _ => "exact"
  | .pattern .substring _ => "contains"
  | .equals _ => "eq"

/-- Whether the predicate holds of a value that is not an array. -/
def holdsOf [PatternLimit] (p : Predicate) (v : Value) : Bool :=
  match p with
  | .compare comparison bound => (v.compareSame? bound).any comparison.accepts
  | .equals operand => v.equalTo operand
  | .pattern kind text =>
    match v with
    | .string found => Pattern.meets kind text found
    | _ => false

/-- Whether the predicate holds of a value. -/
def holds [PatternLimit] (p : Predicate) (v : Value) : Bool := v.someElement p.holdsOf

/-- The operator of a comparison in a query document. -/
def operatorKey : Comparison → String
  | .less => "$lt"
  | .lessOrEqual => "$lte"
  | .greater => "$gt"
  | .greaterOrEqual => "$gte"

/-- The predicate as it stands beside a field in a query document. -/
def toDocument : Predicate → Value
  | .compare comparison bound => .object [(operatorKey comparison, bound)]
  | .pattern kind text =>
    .object [("$regex", .string (Pattern.source kind text)), ("$options", .string "i")]
  | .equals operand => operand

end Predicate

end JoinPlan
