import JoinPlan.Json.Basic
import JoinPlan.Text.Split

/-!
# Dotted paths

A dotted path names the values found by taking one member after the other. An
array met on the way stands for its items, one level deep: an item that is an
array itself has no members. `lookup_joined` says that a path of two parts looks
up the second part in what the first one finds.
-/

namespace JoinPlan.Value

/-- The members of that name in a value, or in the items of an array. -/
def step (v : Value) (name : String) : List Value :=
  match v with
  | .object members => (Members.get? members name).toList
  | .array items => items.filterMap (·.get? name)
  | _ => []

/-- What is found by taking the names in turn. -/
def walk (v : Value) : List String → List Value
  | [] => [v]
  | name :: rest => (v.step name).flatMap (·.walk rest)

/-- The names along a dotted path. -/
def pathNames (path : String) : List String := Text.split '.' path

/-- The values at a dotted path. -/
def lookup (v : Value) (path : String) : List Value := v.walk (pathNames path)

theorem walk_append (v : Value) (names rest : List String) :
    v.walk (names ++ rest) = (v.walk names).flatMap (·.walk rest) := by
  induction names generalizing v with
  | nil => simp [walk]
  | cons name names ih => simp only [List.cons_append, walk, List.flatMap_assoc, ih]

theorem lookup_joined (v : Value) (path rest : String) :
    v.lookup (path ++ "." ++ rest) = (v.lookup path).flatMap (·.lookup rest) := by
  have h := Text.split_joined '.' path rest
  unfold lookup pathNames
  rw [← walk_append, ← h]
  rfl

end JoinPlan.Value
