import JoinPlan.Json.Reader
import JoinPlan.SortedMap

/-!
# Filters as sent

A filter maps attributes and paths to filter values: one token, a list of
alternative tokens, or an object. An empty list of alternatives asks for nothing
and counts as no filter.
-/

namespace JoinPlan

/-- What a filter asks of one attribute or path. -/
inductive FilterValue where
  | one (token : String)
  | many (tokens : List String)
  | nested (members : Members)

/-- A filter, by attribute or path. -/
abbrev Filter := SortedMap FilterValue

namespace FilterValue

/-- The alternatives, unless the value is an object. -/
def tokens? : FilterValue → Option (List String)
  | .one token => some [token]
  | .many tokens => some tokens
  | .nested _ => none

/-- Whether the value is a list without alternatives. -/
def isEmpty : FilterValue → Bool
  | .many [] => true
  | _ => false

/-- The value as JSON. -/
def toJson : FilterValue → Value
  | .one token => .string token
  | .many tokens => .ofTexts tokens
  | .nested members => .object members

/-- The filter value that a JSON value stands for. -/
def ofJson? : Value → Option FilterValue
  | .string token => some (.one token)
  | .array items => (items.mapM Value.text?).map .many
  | .object members => some (.nested members)
  | _ => none

end FilterValue

end JoinPlan
