import JoinPlan.Filter.Predicate
import JoinPlan.Json.Lookup

/-!
# Conditions on documents

A condition combines predicates on the values at dotted paths. `conj` and `disj`
build the smallest condition: they drop what always holds and do not wrap a
single part. A disjunction of nothing never holds.
-/

namespace JoinPlan

/-- A condition on a document. -/
inductive Condition where
  | always
  | field (path : String) (predicate : Predicate)
  | allOf (parts : List Condition)
  | anyOf (parts : List Condition)

namespace Condition

/-- Whether the condition is the one that always holds. -/
def isAlways : Condition → Bool
  | .always => true
  | _ => false

/-- The conjunction of parts. -/
def conj (parts : List Condition) : Condition :=
  match parts.filter (!·.isAlways) with
  | [] => .always
  | [part] => part
  | parts => .allOf parts

/-- The disjunction of parts. -/
def disj (parts : List Condition) : Condition :=
  if parts.any isAlways then .always
  else
    match parts with
    | [part] => part
    | parts => .anyOf parts

mutual

/-- Whether the condition holds of a document. -/
def holds [PatternLimit] (document : Value) : Condition → Bool
  | .always => true
  | .field path predicate => (document.lookup path).any predicate.holds
  | .allOf parts => allHold document parts
  | .anyOf parts => someHolds document parts

/-- Whether every part holds. -/
def allHold [PatternLimit] (document : Value) : List Condition → Bool
  | [] => true
  | part :: rest => part.holds document && allHold document rest

/-- Whether some part holds. -/
def someHolds [PatternLimit] (document : Value) : List Condition → Bool
  | [] => false
  | part :: rest => part.holds document || someHolds document rest

end

mutual

/-- The condition as a query document. -/
def toDocument : Condition → Value
  | .always => .object []
  | .field path predicate => .object [(path, predicate.toDocument)]
  | .allOf parts => .object [("$and", .array (toDocuments parts))]
  | .anyOf parts => .object [("$or", .array (toDocuments parts))]

/-- The query documents of the parts. -/
def toDocuments : List Condition → List Value
  | [] => []
  | part :: rest => part.toDocument :: toDocuments rest

end

theorem allHold_eq_all [PatternLimit] (document : Value) (parts : List Condition) :
    allHold document parts = parts.all (·.holds document) := by
  induction parts with
  | nil => rfl
  | cons part rest ih => simp [allHold, ih]

theorem someHolds_eq_any [PatternLimit] (document : Value) (parts : List Condition) :
    someHolds document parts = parts.any (·.holds document) := by
  induction parts with
  | nil => rfl
  | cons part rest ih => simp [someHolds, ih]

theorem toDocuments_eq_map (parts : List Condition) :
    toDocuments parts = parts.map toDocument := by
  induction parts with
  | nil => rfl
  | cons part rest ih => simp [toDocuments, ih]

end Condition

end JoinPlan
