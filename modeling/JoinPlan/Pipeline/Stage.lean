import JoinPlan.Filter.Condition

/-!
# Pipeline stages

A pipeline is a list of stages that a document store runs one after the other.
`Stage.toDocument` is the form in which a store takes a stage.
-/

namespace JoinPlan

/-- A left outer join with another collection. Under `asName` it puts the documents
of `source` whose `foreignField` holds a value of `localField`. -/
structure Join where
  source : String
  localField : String
  foreignField : String
  asName : String
deriving DecidableEq, Repr

/-- Replaces a document by one for each item under `asName`. -/
structure Flatten where
  asName : String
  /-- Whether a document without items is kept. -/
  preserve : Bool
  /-- The field that takes the position of the item. -/
  indexField : Option String
deriving DecidableEq, Repr

namespace Flatten

/-- The flattening that keeps documents without items. -/
def preserving (asName : String) : Flatten := ⟨asName, true, none⟩

/-- The flattening that also records positions. -/
def withIndex (f : Flatten) (field : String) : Flatten := { f with indexField := some field }

end Flatten

/-- The direction of sorting. -/
inductive Direction where
  | ascending
  | descending
deriving DecidableEq, Repr

namespace Direction

/-- The short name of a direction. -/
def name : Direction → String
  | .ascending => "asc"
  | .descending => "desc"

/-- The sign of a direction. -/
def sign : Direction → Int
  | .ascending => 1
  | .descending => -1

end Direction

/-- A dotted path to sort by. -/
structure SortKey where
  path : String
  direction : Direction
deriving DecidableEq, Repr

/-- A stage of a pipeline. -/
inductive Stage where
  | filter (condition : Condition)
  | join (j : Join)
  | flatten (f : Flatten)
  | sort (keys : List SortKey)
  | skip (count : Nat)
  | limit (count : Nat)

namespace Stage

/-- The name of a stage's operation. -/
def operation : Stage → String
  | .filter _ => "$match"
  | .join _ => "$lookup"
  | .flatten _ => "$unwind"
  | .sort _ => "$sort"
  | .skip _ => "$skip"
  | .limit _ => "$limit"

/-- The operand of a stage in a query document. -/
def operand : Stage → Value
  | .filter condition => condition.toDocument
  | .join j =>
    .object [("from", .string j.source), ("localField", .string j.localField),
      ("foreignField", .string j.foreignField), ("as", .string j.asName)]
  | .flatten f =>
    .object <|
      [("path", .string ("$" ++ f.asName)), ("preserveNullAndEmptyArrays", .bool f.preserve)]
      ++ (f.indexField.map fun field => ("includeArrayIndex", Value.string field)).toList
  | .sort keys =>
    .object (Members.ofList (keys.map fun key => (key.path, .ofInt key.direction.sign)))
  | .skip count | .limit count => .ofInt count

/-- The stage as a query document. -/
def toDocument (stage : Stage) : Value := .object [(stage.operation, stage.operand)]

/-- Whether the stage filters. -/
def isFilter : Stage → Bool
  | .filter _ => true
  | _ => false

/-- Whether the stage flattens the alias. -/
def flattens (asName : String) : Stage → Bool
  | .flatten f => f.asName == asName
  | _ => false

/-- Whether the stage joins under the alias. -/
def joinsAs (asName : String) : Stage → Bool
  | .join j => j.asName == asName
  | _ => false

end Stage

end JoinPlan
