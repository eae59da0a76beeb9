import JoinPlan.Json.Reader

/-!
# Typed data in JSON

Data with fixed fields is written as an object or as the array of the fields in
their order. In an object a declared field may stand once; fields that are not
declared are skipped, whatever they hold, or refused where the reader is strict.
An array may end early and must not be too long. There is no coercion between
types.
-/

namespace JoinPlan.Node

/-- The declared fields that were written, by name. -/
def typedFields? (strict : Bool) (names : List String) : Node → Option (List (String × Node))
  | .object members => do
    let named ← members.mapM fun (key, node) => key.map fun name => (name, node)
    let known := named.filter (names.contains ·.1)
    if strict && known.length ≠ named.length then none
    else if (known.map Prod.fst).Nodup then some known
    else none
  | .array items => if items.length ≤ names.length then some (names.zip items) else none
  | _ => none

/-- A field, read by `decode`; it must be there. -/
def required? {α : Type} (fields : List (String × Node)) (name : String)
    (decode : Node → Option α) : Option α :=
  (fields.lookup name).bind decode

/-- A field, read by `decode`; a value stands in where it is missing. -/
def orDefault? {α : Type} (fields : List (String × Node)) (name : String) (default : α)
    (decode : Node → Option α) : Option α :=
  match fields.lookup name with
  | some node => decode node
  | none => some default

/-- A text. -/
def text? : Node → Option String
  | .string s => s
  | _ => none

/-- A truth value. -/
def flag? : Node → Option Bool
  | .bool b => some b
  | _ => none

/-- A natural number of at most 64 bits, written as an integer. -/
def natural? : Node → Option Nat
  | .number (some (.int n)) => if 0 ≤ n ∧ n < UInt64.size then some n.toNat else none
  | _ => none

/-- A list of texts. -/
def texts? : Node → Option (List String)
  | .array items => items.mapM text?
  | _ => none

/-- Null for nothing, or else what `decode` reads. -/
def nullable? {α : Type} (decode : Node → Option α) : Node → Option (Option α)
  | .null => some none
  | node => (decode node).map some

end JoinPlan.Node
