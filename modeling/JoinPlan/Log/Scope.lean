import JoinPlan.Log.Record

/-!
# Scopes

A scope is one unit of work in the log. Its first record says that it began, and
one more record says how it ended: complete, failed, or left without a verdict.
-/

namespace JoinPlan.Log

/-- A unit of work, by its name and the fields of its records. -/
structure Scope where
  name : String
  fields : Fields
deriving DecidableEq, Repr

namespace Scope

/-- The record of the beginning. -/
def began (scope : Scope) : Record :=
  .make .debug (scope.name ++ "_BEGIN") scope.fields

/-- The record of a success, with further fields and the milliseconds it took. -/
def completed (scope : Scope) (extra : Fields) (elapsed : Nat) : Record :=
  .make .info (scope.name ++ "_COMPLETE")
    (scope.fields ++ extra ++ [("elapsed_ms", toString elapsed)])

/-- The record of a failure. -/
def failed (scope : Scope) (reason : String) : Record :=
  .make .error (scope.name ++ "_FAILED") (scope.fields ++ [("reason", reason)])

/-- The record of a scope that was left without a verdict. -/
def abandoned (scope : Scope) : Record :=
  .make .warn (scope.name ++ "_INCOMPLETE") [("reason", "scope dropped without completion")]

end Scope

end JoinPlan.Log
