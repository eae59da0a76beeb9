/-!
# Write errors

A write fails when an interceptor refuses it, when its document is no object, when no
document has the identifier, or when the sequence or the store fails.
-/

namespace JoinPlan

/-- Why a write did not happen. -/
inductive WriteError where
  | refused (interceptor reason : String)
  | invalidDocument (reason : String)
  | notFound (type id : String)
  | sequence (message : String)
  | store (message : String)
deriving DecidableEq, Repr

namespace WriteError

/-- The stable code of an error. -/
def code : WriteError → String
  | .refused .. => "AERO_WRITE_REJECTED"
  | .invalidDocument _ => "AERO_INVALID_DOCUMENT"
  | .notFound .. => "AERO_RESOURCE_NOT_FOUND"
  | .sequence _ => "AERO_SEQUENCE_FAILED"
  | .store _ => "AERO_STORE_FAILED"

/-- The status of an error, as in web protocols. -/
def status : WriteError → Nat
  | .refused .. | .invalidDocument _ => 400
  | .notFound .. => 404
  | .sequence _ | .store _ => 500

/-- What went wrong, in words. -/
def message : WriteError → String
  | .refused interceptor reason => s!"Write rejected by {interceptor}: {reason}"
  | .invalidDocument reason => "Invalid document: " ++ reason
  | .notFound type id => s!"Resource not found: {type}/{id}"
  | .sequence message => "Sequence failure: " ++ message
  | .store message => "Store failure: " ++ message

end WriteError

end JoinPlan
