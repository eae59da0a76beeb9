import JoinPlan.Pipeline.Stage
import JoinPlan.Route

/-!
# Joins of a route

Each hop of a route becomes a join and a flattening. The alias of a join is made
of the fields followed so far, so two routes share the joins of their common
beginning. A join reads the identifier inside the reference: on the document
itself for the first hop, under the alias before it for the others.

The relations of the requested type itself are joined under aliases of their own,
made of the target and the attribute.
-/

namespace JoinPlan

/-- The alias of the document that a list of fields leads to. -/
def pathAlias (fields : List String) : String := "__" ++ "/".intercalate fields

/-- The alias of the target of a relation of the requested type. -/
def relationAlias (target field : String) : String := s!"__{target}/{field}"

/-- The path of the identifier in the reference that a field holds, on the document
that the fields `before` lead to. -/
def referencePath (before : List String) (field : String) : String :=
  match before with
  | [] => field ++ "." ++ referenceKey
  | _ => pathAlias before ++ "." ++ field ++ "." ++ referenceKey

/-- The joins of hops that start where the fields `before` lead to. -/
def joinsFrom (before : List String) : List Hop → List (Join × Flatten)
  | [] => []
  | hop :: rest =>
    let fields := before ++ [hop.field]
    let join : Join :=
      ⟨hop.target, referencePath before hop.field, hop.foreignField, pathAlias fields⟩
    (join, .preserving join.asName) :: joinsFrom fields rest

/-- The joins of a route's hops. -/
def Route.joins (route : Route) : List (Join × Flatten) := joinsFrom [] route.hops

end JoinPlan
