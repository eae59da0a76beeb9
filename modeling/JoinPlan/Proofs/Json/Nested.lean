import JoinPlan.Json.Lookup

/-!
# Values along one path

`Value.nested` is the smallest document that has a value at the end of given names. So it
answers at these names with the value (`walk_nested`), and elsewhere with an object on the
way or with nothing. It serves to tell paths apart: what reads the document at another path
learns nothing of the value.
-/

namespace JoinPlan.Value

/-- The value at the end of the names, in objects that hold nothing else. -/
def nested : List String → Value → Value
  | [], leaf => leaf
  | name :: rest, leaf => .object [(name, nested rest leaf)]

theorem walk_nested (names : List String) (leaf : Value) :
    (nested names leaf).walk names = [leaf] := by
  induction names with
  | nil => rfl
  | cons name rest ih => simpa [nested, walk, step, Members.get?] using ih

theorem isObject_nested {names : List String} (h : names ≠ []) (leaf : Value) :
    (nested names leaf).isObject := by
  cases names with
  | nil => exact absurd rfl h
  | cons name rest => rfl

theorem distinctKeys_nested (names : List String) {leaf : Value} (h : leaf.DistinctKeys) :
    (nested names leaf).DistinctKeys := by
  induction names with
  | nil => exact h
  | cons name rest ih =>
    rw [nested, DistinctKeys]
    exact ⟨List.nodup_cons.mpr ⟨List.not_mem_nil, .nil⟩, ih, trivial⟩

/-- Whatever names are taken, they lead to an object or to the end. -/
theorem eq_or_isObject_of_mem_walk_nested {leaf : Value} (hleaf : ∀ name, leaf.step name = [])
    {names others : List String} {v : Value} (h : v ∈ (nested names leaf).walk others) :
    v = leaf ∨ v.isObject := by
  induction others generalizing names with
  | nil =>
    rw [List.mem_singleton.mp h]
    cases names with
    | nil => exact .inl rfl
    | cons name rest => exact .inr rfl
  | cons other others ih =>
    obtain ⟨w, hw, hv⟩ := List.mem_flatMap.mp h
    cases names with
    | nil =>
      rw [nested, hleaf] at hw
      cases hw
    | cons name rest =>
      by_cases hname : name = other
      · simp only [nested, step, Members.get?, if_pos hname, Option.toList_some,
          List.mem_singleton] at hw
        rw [hw] at hv
        exact ih hv
      · simp only [nested, step, Members.get?, if_neg hname] at hw
        cases hw

/-- At other names the document answers alike for every value without members: with nothing
on both sides, or with an object on the way. -/
theorem walk_nested_of_ne {names others : List String} (h : others ≠ names) {a b : Value}
    (ha : ∀ name, a.step name = []) (hb : ∀ name, b.step name = []) :
    (nested names a).walk others = [] ∧ (nested names b).walk others = [] ∨
      ∃ members members', (nested names a).walk others = [.object members] ∧
        (nested names b).walk others = [.object members'] := by
  induction names generalizing others with
  | nil =>
    obtain ⟨other, rest, rfl⟩ := List.exists_cons_of_ne_nil h
    refine .inl ⟨?_, ?_⟩
    · rw [nested, walk, ha, List.flatMap_nil]
    · rw [nested, walk, hb, List.flatMap_nil]
  | cons name names ih =>
    cases others with
    | nil => exact .inr ⟨_, _, rfl, rfl⟩
    | cons other rest =>
      by_cases hname : name = other
      · have hrest : rest ≠ names := fun e => h (by rw [hname, e])
        simpa [nested, walk, step, Members.get?, hname] using ih hrest
      · exact .inl (by simp [nested, walk, step, Members.get?, hname])

end JoinPlan.Value
