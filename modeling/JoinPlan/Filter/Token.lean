import JoinPlan.Filter.Predicate
import JoinPlan.Json.Printer
import JoinPlan.Scalar.Cast

/-!
# Filter tokens

A token is an operator and an operand: `<v`, `<=v`, `>v`, `>=v` compare, `~v` and
`:v` are patterns for the whole and for a part, and a bare `v` is equality. The
operand is cast to the attribute's type; without a type it stays a string. A
pattern takes the text of the cast operand.
-/

namespace JoinPlan

/-- What stands before the operand of a token. -/
inductive Operator where
  | lessOrEqual
  | less
  | greaterOrEqual
  | greater
  | exact
  | substring
  | equal
deriving DecidableEq, Repr

namespace Operator

/-- How an operator is written. -/
def mark : Operator → String
  | .lessOrEqual => "<="
  | .less => "<"
  | .greaterOrEqual => ">="
  | .greater => ">"
  | .exact => "~"
  | .substring => ":"
  | .equal => ""

/-- The operator of a token and its operand. The longer mark is tried first. -/
def ofChars : List Char → Operator × List Char
  | '<' :: '=' :: rest => (.lessOrEqual, rest)
  | '<' :: rest => (.less, rest)
  | '>' :: '=' :: rest => (.greaterOrEqual, rest)
  | '>' :: rest => (.greater, rest)
  | '~' :: rest => (.exact, rest)
  | ':' :: rest => (.substring, rest)
  | rest => (.equal, rest)

/-- The text of a value inside a pattern: a string as it is, all else as JSON. -/
def patternText : Value → String
  | .string s => s
  | value => value.compact

/-- The predicate of an operator and an operand. -/
def predicate : Operator → Value → Predicate
  | .lessOrEqual, v => .compare .lessOrEqual v
  | .less, v => .compare .less v
  | .greaterOrEqual, v => .compare .greaterOrEqual v
  | .greater, v => .compare .greater v
  | .exact, v => .pattern .exact (patternText v)
  | .substring, v => .pattern .substring (patternText v)
  | .equal, v => .equals v

end Operator

namespace Predicate

/-- The predicate of a token under an optional type. -/
def ofToken (token : String) (type : Option ScalarType) : Except CastFailure Predicate :=
  let (operator, operand) := Operator.ofChars token.toList
  (castOr type (String.ofList operand)).map operator.predicate

end Predicate

theorem Operator.mark_append_operand (cs : List Char) :
    (Operator.ofChars cs).1.mark.toList ++ (Operator.ofChars cs).2 = cs := by
  unfold Operator.ofChars
  split <;> simp [Operator.mark]

end JoinPlan
