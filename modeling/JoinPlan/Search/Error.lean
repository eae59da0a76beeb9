import JoinPlan.Plan.Error

/-!
# Search errors

A search fails when its request is refused, when the document asked for is missing,
or when the store fails. The status tells which side the failure is on: the client's
below `500`, the store's from there on.
-/

namespace JoinPlan

/-- Why a search gives no result. -/
inductive SearchError where
  | refused (error : PlanError)
  | notFound (type id : String)
  | store (message : String)
deriving DecidableEq, Repr

namespace SearchError

/-- The stable code of an error. -/
def code : SearchError → String
  | .refused error => error.code
  | .notFound .. => "AERO_RESOURCE_NOT_FOUND"
  | .store _ => "AERO_STORE_FAILED"

/-- The status of an error, as in web protocols. -/
def status : SearchError → Nat
  | .refused (.castFailed _) => 400
  | .refused (.unknownType _) | .notFound .. => 404
  | .store _ => 500

/-- Whether the client caused the error. -/
def isClientError (e : SearchError) : Bool := e.status < 500

/-- What went wrong, in words. -/
def message : SearchError → String
  | .refused (.unknownType type) => "Unknown resource type: " ++ type
  | .refused (.castFailed failure) => "Invalid filter: " ++ (PlanError.castFailed failure).reason
  | .notFound type id => s!"Resource not found: {type}/{id}"
  | .store message => "Store failure: " ++ message

/-- The failed cast, if the error is one. -/
def castFailure? : SearchError → Option CastFailure
  | .refused error => error.castFailure?
  | _ => none

end SearchError

end JoinPlan
