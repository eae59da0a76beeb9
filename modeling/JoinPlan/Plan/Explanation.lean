import JoinPlan.Json.Printer
import JoinPlan.Plan.Basic
import JoinPlan.Plan.Error

/-!
# Explaining a plan

An explanation shows a plan, or why there is none, as JSON and as text. Lists that
are empty are left out.
-/

namespace JoinPlan

/-- A plan to explain, or the error instead of one. -/
abbrev Explanation := Except PlanError Plan

namespace Explanation

/-- A member for a list that is not empty. -/
def listMember (name : String) (items : List Value) : List (String × Value) :=
  if items.isEmpty then [] else [(name, .array items)]

/-- The explanation as JSON. -/
def toJson : Explanation → Value
  | .ok plan =>
    .object <|
      [("accepted", .bool true), ("collection", .string plan.collection),
        ("pipeline", .array plan.pipelineDocuments),
        ("count_criteria", plan.criteria.toDocument)]
      ++ listMember "extra_fields" (plan.extraFields.map ExtraField.toJson)
      ++ listMember "touched_schemas" (plan.touchedSchemas.map SchemaRef.toJson)
  | .error e =>
    .object [("accepted", .bool false), ("rejection_code", .string e.code),
      ("rejection_reason", .string e.reason)]

/-- A heading and lines under it; nothing where there are no lines. -/
def section? (heading : String) (lines : List String) : List String :=
  if lines.isEmpty then [] else heading :: lines

/-- The lines of the explanation. -/
def lines : Explanation → List String
  | .ok plan =>
    ["=== EXPLAIN PLAN ===", "Status: ACCEPTED", "Collection: " ++ plan.collection, "Pipeline:"]
      ++ plan.pipelineDocuments.map (fun stage => "  " ++ stage.compact)
      ++ section? "Extra fields:"
        (plan.extraFields.map fun field => s!"  - {field.path} -> {field.valuePath}")
      ++ (if plan.touchedSchemas.isEmpty then []
        else ["Schemas: " ++ ",".intercalate (plan.touchedSchemas.map SchemaRef.text)])
  | .error e =>
    ["=== EXPLAIN PLAN ===", "Status: REJECTED", "Code: " ++ e.code, "Reason: " ++ e.reason]

/-- The explanation as text, every line ended. -/
def text (e : Explanation) : String := String.join (e.lines.map (· ++ "\n"))

end Explanation

end JoinPlan
