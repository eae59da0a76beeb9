import JoinPlan.SortedMap

/-!
# Sequences

A sequence hands out the numbers `1`, `2`, `3` and so on under a name. Sequences of
different names do not meet: `current_advance_of_ne`.
-/

namespace JoinPlan

/-- The last number of every sequence. -/
structure Counters where
  last : SortedMap Nat

namespace Counters

/-- The sequences before their first numbers. -/
def empty : Counters := ⟨.empty⟩

instance : Inhabited Counters := ⟨empty⟩

/-- The last number handed out under a name, zero before the first. -/
def current (counters : Counters) (name : String) : Nat := (counters.last.get? name).getD 0

/-- The next number under a name, and the sequences after it. -/
def advance (counters : Counters) (name : String) : Nat × Counters :=
  let next := counters.current name + 1
  (next, ⟨counters.last.insert name next⟩)

theorem current_advance_self (counters : Counters) (name : String) :
    (counters.advance name).2.current name = counters.current name + 1 := by
  simp [advance, current]

theorem current_advance_of_ne {name other : String} (h : other ≠ name) (counters : Counters) :
    (counters.advance name).2.current other = counters.current other := by
  simp [advance, current, SortedMap.get?_insert_of_ne h]

end Counters

end JoinPlan
