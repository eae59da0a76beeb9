import JoinPlan.Json.Basic
import JoinPlan.Text.Quoted

/-!
# Interceptors

Interceptors stand around every write. Before it they are asked in order, and the
first that refuses ends the write; the later ones are not asked. After it all of them
are told. An interceptor is called by its position in the chain.
-/

namespace JoinPlan

/-- The kind of a write. -/
inductive WriteOperation where
  | create
  | update
  | delete
deriving DecidableEq, Repr

/-- The name of a kind of write. -/
def WriteOperation.name : WriteOperation → String
  | .create => "create"
  | .update => "update"
  | .delete => "delete"

/-- A write that is about to happen. The identifier is missing in a create, the
payload in a delete. -/
structure WriteEvent where
  operation : WriteOperation
  type : String
  id : Option String
  payload : Option Members

/-- Whoever may refuse writes: a name, and the reason against a write, if there is
one. -/
structure Interceptor where
  name : String
  refusal : WriteEvent → Option String

/-- A call of the interceptor at a position of a chain. -/
inductive HookCall where
  | before (position : Nat)
  | after (position : Nat) (document : Value)

/-- Interceptors in the order in which they are asked. -/
abbrev Chain := List Interceptor

namespace Chain

/-- The chain for diagnostics, by the names of its interceptors. -/
def description (chain : Chain) : String :=
  "InterceptorChain \x7b interceptors: ["
    ++ ", ".intercalate (chain.map fun interceptor => Text.quoted interceptor.name) ++ "] \x7d"

end Chain

end JoinPlan
