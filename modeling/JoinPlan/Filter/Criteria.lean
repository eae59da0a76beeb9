import JoinPlan.Filter.Condition
import JoinPlan.Filter.Token
import JoinPlan.Filter.Value
import JoinPlan.Schema.Basic

/-!
# Criteria of a filter

A filter is compiled against a schema into a condition on the type's own
documents. A scalar attribute is matched under its type; a relation is matched by
the identifier it refers to, unless it has a traversal key: then the planner
matches it on the joined document. Paths, undeclared keys, empty lists and objects
asked of relations put no condition.
-/

namespace JoinPlan.Condition

/-- The condition that some token's predicate holds at a path. -/
def ofTokens (path : String) (tokens : List String) (type : Option ScalarType) :
    Except CastFailure Condition := do
  let predicates ← tokens.mapM fun token => Predicate.ofToken token type
  return disj (predicates.map (.field path))

/-- The condition that one filter entry puts on documents of a schema, if any. -/
def ofEntry (schema : Schema) (key : String) (value : FilterValue) :
    Except CastFailure (Option Condition) :=
  if key.toList.contains '/' || value.isEmpty then .ok none
  else
    match schema.attribute? key with
    | none => .ok none
    | some ⟨.relation relation, _⟩ =>
      match relation.traversalKey, value.tokens? with
      | none, some tokens => (ofTokens (key ++ "." ++ referenceKey) tokens none).map some
      | _, _ => .ok none
    | some ⟨.scalar type, _⟩ =>
      match value.tokens? with
      | none => .error ⟨key, type.name, "<object>"⟩
      | some tokens => ((ofTokens key tokens (some type)).mapError (·.orField key)).map some

/-- The condition that a filter puts on documents of a schema. Keys are taken in
order, and the first token that cannot be cast is the error. -/
def ofFilter (schema : Schema) (filter : Filter) : Except CastFailure Condition := do
  let conditions ← filter.entries.mapM fun (key, value) => ofEntry schema key value
  return conj (conditions.filterMap id)

end JoinPlan.Condition
