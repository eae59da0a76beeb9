import JoinPlan.Json.Lookup
import JoinPlan.Json.Order
import JoinPlan.Pipeline.Stage

/-!
# Sorting documents

Documents are sorted by one key after the other. A key compares the first value
found at its path, and a document without one comes first in ascending order.
Documents that agree at every key keep their order.
-/

namespace JoinPlan

namespace SortKey

/-- How two documents compare at a key. -/
def compare (key : SortKey) (a b : Value) : Ordering :=
  let ascending := compareFound (a.lookup key.path).head? (b.lookup key.path).head?
  match key.direction with
  | .ascending => ascending
  | .descending => ascending.swap

/-- How two documents compare at the first key that tells them apart. -/
def compareAll : List SortKey → Value → Value → Ordering
  | [], _, _ => .eq
  | key :: rest, a, b => (key.compare a b).then (compareAll rest a b)

end SortKey

/-- The documents in the order of the keys. -/
def sortDocuments (keys : List SortKey) (documents : List Value) : List Value :=
  documents.mergeSort fun a b => (SortKey.compareAll keys a b).isLE

end JoinPlan
