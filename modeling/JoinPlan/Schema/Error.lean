import JoinPlan.Scalar.Cast

/-!
# Schema errors

What can go wrong with schemas and with values under them. An error of the
schemas themselves is fatal: nothing may be served. The others refuse a request.
-/

namespace JoinPlan

/-- How far an error reaches: one request, or the whole service. -/
inductive Severity where
  | reject
  | fatal
deriving DecidableEq, Repr

/-- The name of a severity. -/
def Severity.name : Severity → String
  | .reject => "REJECT"
  | .fatal => "FATAL"

/-- What went wrong. -/
inductive SchemaError where
  | malformed (origin reason : String)
  | alreadyRegistered (type : String)
  | notFound (type : String)
  | castFailed (failure : CastFailure)
deriving DecidableEq, Repr

namespace SchemaError

/-- The stable code of an error. -/
def code : SchemaError → String
  | .malformed .. => "AERO_SCHEMA_MALFORMED"
  | .alreadyRegistered _ => "AERO_SCHEMA_IMMUTABLE"
  | .notFound _ => "AERO_UNKNOWN_SCHEMA"
  | .castFailed _ => "AERO_FILTER_CAST_FAILED"

/-- How far the error reaches. -/
def severity : SchemaError → Severity
  | .malformed .. | .alreadyRegistered _ => .fatal
  | .notFound _ | .castFailed _ => .reject

/-- What went wrong, in words. -/
def reason : SchemaError → String
  | .malformed origin reason => s!"Malformed schema '{origin}': {reason}"
  | .alreadyRegistered type => s!"Resource type '{type}' is already registered"
  | .notFound type => s!"Resource type '{type}' not found"
  | .castFailed failure => "Filter value rejected: " ++ failure.message

/-- The whole message: severity, code and reason. -/
def message (e : SchemaError) : String :=
  s!"[{e.severity.name}] {e.code}: {e.reason}"

/-- The resource type the error is about. -/
def resourceType? : SchemaError → Option String
  | .alreadyRegistered type | .notFound type => some type
  | .malformed .. | .castFailed _ => none

/-- The failed cast, if the error is one. -/
def castFailure? : SchemaError → Option CastFailure
  | .castFailed failure => some failure
  | _ => none

/-- The error, where a failed cast without a field is bound to one. -/
def orField (e : SchemaError) (field : String) : SchemaError :=
  match e with
  | .castFailed failure => .castFailed (failure.orField field)
  | e => e

end SchemaError

end JoinPlan
