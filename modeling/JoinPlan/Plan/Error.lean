import JoinPlan.Schema.Error

/-!
# Planning errors

A request is refused when its resource type is not registered or when a filter
value cannot be cast. Paths that lead nowhere are no error: they are dropped.
-/

namespace JoinPlan

/-- Why a request is refused. -/
inductive PlanError where
  | unknownType (type : String)
  | castFailed (failure : CastFailure)
deriving DecidableEq, Repr

namespace PlanError

/-- The stable code of an error. -/
def code : PlanError → String
  | .unknownType _ => "AERO_UNKNOWN_RESOURCE"
  | .castFailed _ => "AERO_FILTER_CAST_FAILED"

/-- How far the error reaches: to its request. -/
def severity (_ : PlanError) : Severity := .reject

/-- What went wrong, in words. -/
def reason : PlanError → String
  | .unknownType type => s!"Resource type '{type}' is not registered"
  | .castFailed failure => "Filter value rejected: " ++ failure.message

/-- The whole message: severity, code and reason. -/
def message (e : PlanError) : String := s!"[{e.severity.name}] {e.code}: {e.reason}"

/-- The resource type the error is about. -/
def resourceType? : PlanError → Option String
  | .unknownType type => some type
  | .castFailed _ => none

/-- The failed cast, if the error is one. -/
def castFailure? : PlanError → Option CastFailure
  | .castFailed failure => some failure
  | .unknownType _ => none

/-- A schema error met while planning. All but a failed cast count as an unknown
type, named by the error or else by its words. -/
def ofSchemaError : SchemaError → PlanError
  | .castFailed failure => .castFailed failure
  | e => .unknownType (e.resourceType?.getD e.reason)

end PlanError

end JoinPlan
