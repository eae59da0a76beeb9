import JoinPlan.Binary64.Decimal
import JoinPlan.Json.Basic
import JoinPlan.Scalar.Basic
import JoinPlan.Scalar.Timestamp
import JoinPlan.Scalar.Uuid

/-!
# Casting text to a scalar type

A text is cast to the type its attribute declares, and to no other: there is no
guessing and no fallback to string. `ScalarType.cast?` gives the value, in one
canonical form for timestamps and identifiers; `castOr` is the cast to an
optional type, where no type means that the text is taken as it is.
-/

namespace JoinPlan

/-- A text that its type does not accept: the attribute or path it was meant for
(empty when unknown), the type's name and the text. -/
structure CastFailure where
  field : String
  expected : String
  actual : String
deriving DecidableEq, Repr

namespace CastFailure

/-- The failure, bound to a field. -/
def forField (failure : CastFailure) (field : String) : CastFailure :=
  { failure with field }

/-- The failure, bound to a field unless it names one already. -/
def orField (failure : CastFailure) (field : String) : CastFailure :=
  if failure.field.isEmpty then failure.forField field else failure

/-- The failure in words. -/
def message (failure : CastFailure) : String :=
  let rest := s!"expected {failure.expected}, got '{failure.actual}'"
  if failure.field.isEmpty then rest else s!"field '{failure.field}': " ++ rest

end CastFailure

namespace ScalarType

/-- Whether an integer has 64 bits with sign. -/
def inIntRange (n : Int) : Bool := -0x8000000000000000 ≤ n && n < 0x8000000000000000

/-- A decimal number: digits with an optional point, at least one digit in all,
and an optional exponent. -/
def decimal? (cs : List Char) : Option Decimal :=
  let isMark (c : Char) := c == 'e' || c == 'E'
  let mantissa := cs.takeWhile (!isMark ·)
  let (whole, fraction) := (Text.cutChars '.' mantissa).getD (mantissa, [])
  match Text.natural? (whole ++ fraction), cs.dropWhile (!isMark ·) with
  | none, _ => none
  | some digits, [] => some ⟨digits, -(fraction.length : Int)⟩
  | some digits, _ :: exponent =>
    (Text.integer? exponent).map fun e => ⟨digits, e - fraction.length⟩

/-- The double nearest to a decimal number with an optional sign. -/
def double? (text : String) : Option Binary64 :=
  let (negative, cs) := Text.takeSign text.toList
  (decimal? cs).bind fun d => Binary64.ofBits? negative (Binary64.ofDecimal d)

/-- The truth value that a word stands for, in any case of its letters. -/
def truth? (text : String) : Option Bool :=
  let word := text.toList.map Char.toLower
  if word = "true".toList then some true
  else if word = "false".toList then some false
  else none

/-- The instant that a text stands for: a date and time, or else milliseconds. -/
def instant? (text : String) : Option Timestamp :=
  match Timestamp.ofDateTime? text with
  | some t => some t
  | none =>
    (Text.integer? text.toList).bind fun millis =>
      if inIntRange millis then Timestamp.ofMillis? millis else none

/-- The value of a text under a type. -/
def cast? (type : ScalarType) (text : String) : Option Value :=
  match type with
  | .any => some (.string text)
  | .string => if text.isEmpty then none else some (.string text)
  | .int =>
    (Text.integer? text.toList).bind fun n => if inIntRange n then some (.ofInt n) else none
  | .float => (double? text).map fun x => .number (.float x)
  | .bool => (truth? text).map .bool
  | .timestamp => (instant? text).map fun t => .string t.text
  | .uuid => (Uuid.read text).map fun u => .string u.text

end ScalarType

/-- The value of a text under an optional type; without a type the text stays. -/
def castOr (type : Option ScalarType) (text : String) : Except CastFailure Value :=
  match type with
  | none => .ok (.string text)
  | some type =>
    match type.cast? text with
    | some value => .ok value
    | none => .error ⟨"", type.name, text⟩

end JoinPlan
