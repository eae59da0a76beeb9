import JoinPlan.Proofs.Filter.Predicate

/-!
# Filters and sorting share one order

A filter asks whether a value is below, equal to or above a bound, and sorting compares two
values. These are three functions with rules of their own for numbers. This file supplies that
they are one order, on the kinds of values that have one.

> `holds_asking_iff`: of a value that is no array, the predicate that asks for an ordering holds
> exactly when the two values are of one kind and `compareFound` gives that ordering.

Hence inside a kind one of below, equal and above holds and only one, and between kinds none.
A comparison asks for any of the orderings that it accepts, at every element and so of whole
arrays (`holds_compare_iff`); so the weak ones are the strict one or equality.
-/

namespace JoinPlan

namespace Value

/-- A value of a kind that has an order: a truth value, a number or a string. -/
def IsOrdered : Value → Prop
  | .bool _ | .number _ | .string _ => True
  | _ => False

variable {bound : Value}

/-- Against an ordered bound, equality in filters is the tie of the order. -/
theorem equalTo_iff (h : bound.IsOrdered) (v : Value) :
    v.equalTo bound = true ↔ v.compareSame? bound = some .eq := by
  -- Truth values are compared by their numbers, and equal as themselves.
  have htruth : ∀ a b : Bool, (a == b) = true ↔ compare a.toNat b.toNat = .eq := by decide
  cases bound with
  | bool b =>
    cases v with
    | bool a => exact (htruth a b).trans Option.some_inj.symm
    | _ => exact iff_of_false Bool.false_ne_true nofun
  | number b =>
    cases v with
    | number a => exact beq_iff_eq.trans (compare_eq_iff_eq.symm.trans Option.some_inj.symm)
    | _ => exact iff_of_false Bool.false_ne_true nofun
  | string b =>
    cases v with
    | string a => exact beq_iff_eq.trans (compare_eq_iff_eq.symm.trans Option.some_inj.symm)
    | _ => exact iff_of_false Bool.false_ne_true nofun
  | _ => exact h.elim

/-- The order of an ordered kind is that of values, and there is none between kinds. -/
theorem compareSame?_eq_some_iff (h : bound.IsOrdered) {v : Value} {o : Ordering} :
    v.compareSame? bound = some o ↔
      v.kindRank = bound.kindRank ∧ compareFound (some v) (some bound) = o := by
  constructor
  · intro hsame
    refine ⟨?_, compareFound_of_compareSame hsame⟩
    cases v <;> cases bound <;> first | rfl | cases hsame
  · rintro ⟨hkind, horder⟩
    obtain ⟨o', hsame⟩ : ∃ o', v.compareSame? bound = some o' := by
      cases bound with
      | bool _ | number _ | string _ => cases v <;> first | exact ⟨_, rfl⟩ | cases hkind
      | _ => exact h.elim
    rw [← horder, compareFound_of_compareSame hsame]
    exact hsame

end Value

namespace Comparison

theorem accepts_lessOrEqual (o : Ordering) : lessOrEqual.accepts o = true ↔ o = .lt ∨ o = .eq := by
  cases o <;> decide

theorem accepts_greaterOrEqual (o : Ordering) :
    greaterOrEqual.accepts o = true ↔ o = .gt ∨ o = .eq := by
  cases o <;> decide

end Comparison

namespace Predicate

variable {bound : Value}

/-- The predicate that asks for an ordering of a value against a bound. -/
def asking : Ordering → Value → Predicate
  | .lt, bound => .compare .less bound
  | .eq, bound => .equals bound
  | .gt, bound => .compare .greater bound

/-- Against an ordered bound, what asks for an ordering is told by the order of the kind. -/
theorem holdsOf_asking_iff [PatternLimit] (h : bound.IsOrdered) (o : Ordering) (v : Value) :
    (asking o bound).holdsOf v = true ↔ v.compareSame? bound = some o := by
  cases o with
  | eq => exact Value.equalTo_iff h v
  | lt => simp [asking, holdsOf, Comparison.accepts, Option.any_eq_true]
  | gt => simp [asking, holdsOf, Comparison.accepts, Option.any_eq_true]

/-- Of a value that is no array, what asks for an ordering against an ordered bound holds when
the kinds are the same and the order of values gives this ordering. -/
theorem holds_asking_iff [PatternLimit] (h : bound.IsOrdered) {v : Value}
    (hv : ∀ items, v ≠ .array items) (o : Ordering) :
    (asking o bound).holds v = true ↔
      v.kindRank = bound.kindRank ∧ compareFound (some v) (some bound) = o := by
  rw [holds, Value.someElement_eq hv, holdsOf_asking_iff h, Value.compareSame?_eq_some_iff h]

/-- Of any value, a comparison with an ordered bound holds when one of the orderings holds that
it accepts. -/
theorem holds_compare_iff [PatternLimit] (h : bound.IsOrdered) (comparison : Comparison)
    (v : Value) : (Predicate.compare comparison bound).holds v = true ↔
      ∃ o, comparison.accepts o = true ∧ (asking o bound).holds v = true := by
  have hholdsOf : ∀ element, (Predicate.compare comparison bound).holdsOf element = true ↔
      ∃ o, comparison.accepts o = true ∧ (asking o bound).holdsOf element = true := by
    intro element
    show (element.compareSame? bound).any comparison.accepts = true ↔ _
    simp only [Option.any_eq_true, holdsOf_asking_iff h, and_comm]
  simp only [holds_iff, hholdsOf]
  constructor
  · rintro ⟨element, helement, o, haccepts, hholds⟩
    exact ⟨o, haccepts, element, helement, hholds⟩
  · rintro ⟨o, haccepts, element, helement, hholds⟩
    exact ⟨element, helement, o, haccepts, hholds⟩

/-- Predicates agree with each other and with sorting. Of any value, at most a bound means below
or equal to it, and at least a bound means above or equal to it. A value that is no array and is
of the bound's kind satisfies the one of below, equal and above that the order of values gives,
and neither of the others; of another kind it satisfies no comparison and does not equal. -/
theorem comparisons_follow_compareFound [PatternLimit] (h : bound.IsOrdered) :
    (∀ v,
      ((Predicate.compare .lessOrEqual bound).holds v = true ↔
        (Predicate.compare .less bound).holds v = true ∨
          (Predicate.equals bound).holds v = true) ∧
      ((Predicate.compare .greaterOrEqual bound).holds v = true ↔
        (Predicate.compare .greater bound).holds v = true ∨
          (Predicate.equals bound).holds v = true)) ∧
    ∀ v, (∀ items, v ≠ .array items) →
      (v.kindRank = bound.kindRank →
        ∀ o, (asking o bound).holds v = true ↔ compareFound (some v) (some bound) = o) ∧
      (v.kindRank ≠ bound.kindRank →
        (∀ comparison, (Predicate.compare comparison bound).holds v = false) ∧
          (Predicate.equals bound).holds v = false) := by
  refine ⟨fun v => ⟨?_, ?_⟩, fun v hv => ⟨fun hkind o => ?_, fun hkind => ?_⟩⟩
  · rw [holds_compare_iff h]
    simp only [Comparison.accepts_lessOrEqual, or_and_right, exists_or, exists_eq_left, asking]
  · rw [holds_compare_iff h]
    simp only [Comparison.accepts_greaterOrEqual, or_and_right, exists_or, exists_eq_left, asking]
  · rw [holds_asking_iff h hv]
    exact and_iff_right hkind
  · have hnone : ∀ o, ¬(asking o bound).holds v = true := fun o ho =>
      hkind ((holds_asking_iff h hv o).mp ho).1
    refine ⟨fun comparison => Bool.eq_false_iff.mpr fun hholds => ?_,
      Bool.eq_false_iff.mpr (hnone .eq)⟩
    obtain ⟨o, -, ho⟩ := (holds_compare_iff h comparison v).mp hholds
    exact hnone o ho

section

attribute [local instance] PatternLimit.unbounded

/-- Five against itself inside nested arrays, against six, and against the text of six. -/
theorem comparisons_follow_compareFound_five :
    (Value.ofInt 5).IsOrdered ∧
      (Predicate.compare .lessOrEqual (.ofInt 5)).holds
        (.array [.string "4", .array [.ofInt 6, .array [.ofInt 5]]]) = true ∧
      (asking .gt (.ofInt 5)).holds (.ofInt 6) = true ∧
      (Predicate.compare .greaterOrEqual (.ofInt 5)).holds (.string "6") = false := by
  have hfive : (Value.ofInt 5).IsOrdered := trivial
  obtain ⟨hweak, hstrict⟩ := comparisons_follow_compareFound hfive
  refine ⟨hfive, (hweak _).1.mpr (.inr ?_), ?_, ?_⟩
  · decide +kernel
  · refine ((hstrict (.ofInt 6) nofun).1 rfl .gt).mpr ?_
    decide +kernel
  · exact ((hstrict (.string "6") nofun).2 (by decide)).1 .greaterOrEqual

end

end Predicate

end JoinPlan
