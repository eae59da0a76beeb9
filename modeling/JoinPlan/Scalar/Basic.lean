/-!
# Scalar types

The types an attribute can declare for its values. A schema may write some of
them by a second name; `ScalarType.name` is the one used in messages.
-/

namespace JoinPlan

/-- The type of an attribute's values. -/
inductive ScalarType where
  | string
  | int
  | float
  | bool
  | timestamp
  | uuid
  | any
deriving DecidableEq, Repr

namespace ScalarType

/-- The name of a type. -/
def name : ScalarType → String
  | .string => "string"
  | .int => "int"
  | .float => "float"
  | .bool => "bool"
  | .timestamp => "timestamp"
  | .uuid => "uuid"
  | .any => "any"

/-- The type that a schema names. -/
def ofName? : String → Option ScalarType
  | "string" => some .string
  | "int" | "integer" => some .int
  | "float" | "number" => some .float
  | "bool" | "boolean" => some .bool
  | "timestamp" | "date" => some .timestamp
  | "uuid" => some .uuid
  | "any" => some .any
  | _ => none

theorem ofName?_name (t : ScalarType) : ofName? t.name = some t := by
  cases t <;> rfl

end ScalarType

end JoinPlan
