import JoinPlan.Store.Sorting

/-!
# Sorting keeps sublists

Sorting is stable, so of two lists of documents the shorter one, sorted, is found in the
longer one, sorted. This file supplies `sublist_sortDocuments`, for any sort keys.

Values are ordered by a chain of keys: first by kind, then by what values of the kind
are compared by (`compareTo_eq`). So comparisons of values, and of documents by sort keys,
are transitive and total (`transCmp_compareAll`). What is left is a fact about lists: adding
an element to a list adds it to the sorted list at one place, and that place splits the
sorted list by the element alone (`mergeSort_cons_eq`).
-/

namespace JoinPlan

/-! ## Comparisons by a key -/

/-- Comparing what a function gives is as good a comparison. -/
theorem transCmp_comap {α β : Type} (cmp : β → β → Ordering) [Std.TransCmp cmp] (f : α → β) :
    Std.TransCmp fun a b => cmp (f a) (f b) where
  eq_swap := Std.OrientedCmp.eq_swap
  isLE_trans := Std.TransCmp.isLE_trans

namespace Value

/-- A truth value as a number; no others count. -/
def truthKey : Value → Nat
  | .bool b => b.toNat
  | _ => 0

/-- The rank of a number; no others count. -/
def numberKey : Value → Int
  | .number n => n.rank
  | _ => 0

/-- The text of a string; no others count. -/
def textKey : Value → String
  | .string s => s
  | _ => ""

/-- Values compare by their kinds, and then by the key of their kind. -/
theorem compareTo_eq : compareTo =
    compareLex (compareOn kindRank)
      (compareLex (compareOn truthKey) (compareLex (compareOn numberKey) (compareOn textKey))) := by
  funext a b
  simp only [compareTo, compareLex, compareOn]
  cases hkind : compare a.kindRank b.kindRank with
  | lt => rfl
  | gt => rfl
  | eq =>
    -- Of one kind, all keys but that of the kind tie.
    have hrank : a.kindRank = b.kindRank := Nat.compare_eq_eq.mp hkind
    cases a <;> cases b <;> simp_all [kindRank, compareSame?, truthKey, numberKey, textKey]

instance transCmp_compareTo : Std.TransCmp compareTo := by
  rw [compareTo_eq]
  infer_instance

end Value

/-- What is found compares by whether it is there, and then by value. -/
theorem compareFound_eq : compareFound =
    compareLex (compareOn fun found : Option Value => found.isSome.toNat)
      fun a b => (a.getD .null).compareTo (b.getD .null) := by
  funext a b
  cases a <;> cases b <;> rfl

instance transCmp_compareFound : Std.TransCmp compareFound := by
  rw [compareFound_eq]
  have hvalue := transCmp_comap Value.compareTo fun found : Option Value => found.getD .null
  infer_instance

namespace SortKey

instance transCmp_compare (key : SortKey) : Std.TransCmp key.compare := by
  have hascending := transCmp_comap compareFound fun d : Value => (d.lookup key.path).head?
  cases hdirection : key.direction with
  | ascending =>
    have hcompare : key.compare =
        fun a b => compareFound (a.lookup key.path).head? (b.lookup key.path).head? := by
      funext a b
      rw [SortKey.compare, hdirection]
    rw [hcompare]
    exact hascending
  | descending =>
    have hcompare : key.compare =
        fun a b => compareFound (b.lookup key.path).head? (a.lookup key.path).head? := by
      funext a b
      rw [SortKey.compare, hdirection]
      exact Std.OrientedCmp.eq_swap.symm
    rw [hcompare]
    exact hascending.opposite

/-- Documents compare by one key after the other. -/
theorem compareAll_cons (key : SortKey) (rest : List SortKey) :
    compareAll (key :: rest) = compareLex key.compare (compareAll rest) := rfl

instance transCmp_compareAll (keys : List SortKey) : Std.TransCmp (compareAll keys) := by
  induction keys with
  | nil => exact { eq_swap := rfl, isLE_trans := fun _ _ => rfl }
  | cons key rest ih =>
    rw [compareAll_cons]
    infer_instance

theorem isLE_compareAll_trans (keys : List SortKey) (a b c : Value) :
    (compareAll keys a b).isLE → (compareAll keys b c).isLE → (compareAll keys a c).isLE :=
  Std.TransCmp.isLE_trans

theorem isLE_compareAll_total (keys : List SortKey) (a b : Value) :
    (compareAll keys a b).isLE || (compareAll keys b a).isLE := by
  have hswap : compareAll keys a b = (compareAll keys b a).swap := Std.OrientedCmp.eq_swap
  rw [hswap]
  cases compareAll keys b a <;> rfl

end SortKey

/-! ## Stable sorting -/

section Sorting

variable {α : Type} {le : α → α → Bool}

/-- A further element divides the sorted list by itself: what comes before it and what
it comes before. -/
theorem mergeSort_cons_eq (htrans : ∀ a b c, le a b → le b c → le a c)
    (htotal : ∀ a b, le a b || le b a) (a : α) (xs : List α) :
    (a :: xs).mergeSort le =
      (xs.mergeSort le).filter (!le a ·) ++ a :: (xs.mergeSort le).filter (le a ·) := by
  obtain ⟨front, back, hcons, hsorted, hfront⟩ := List.mergeSort_cons htrans htotal a xs
  have hback : ∀ b ∈ back, le a b = true := by
    have hpairwise := List.pairwise_mergeSort htrans htotal (a :: xs)
    rw [hcons] at hpairwise
    exact (List.pairwise_cons.mp (List.pairwise_append.mp hpairwise).2.1).1
  -- Nothing in front is reached by `a`, and all behind it is, so `a` tells the halves apart.
  rw [hcons, hsorted, List.filter_append, List.filter_append]
  have hfront' : front.filter (!le a ·) = front := List.filter_eq_self.mpr hfront
  have hfront'' : front.filter (le a ·) = [] :=
    List.filter_eq_nil_iff.mpr fun b hb => by simpa using hfront b hb
  have hback' : back.filter (le a ·) = back := List.filter_eq_self.mpr hback
  have hback'' : back.filter (!le a ·) = [] :=
    List.filter_eq_nil_iff.mpr fun b hb => by simp [hback b hb]
  rw [hfront', hfront'', hback', hback'', List.append_nil, List.nil_append]

/-- A sublist, sorted, is a sublist of the list, sorted. -/
theorem sublist_mergeSort_of_sublist (htrans : ∀ a b c, le a b → le b c → le a c)
    (htotal : ∀ a b, le a b || le b a) {xs ys : List α} (h : xs.Sublist ys) :
    (xs.mergeSort le).Sublist (ys.mergeSort le) := by
  -- An element of the long list alone goes in at one place; a common one splits both lists.
  induction h with
  | slnil => exact .refl _
  | @cons xs ys a _ ih =>
    obtain ⟨front, back, hcons, hsorted, -⟩ := List.mergeSort_cons htrans htotal a ys
    rw [hsorted] at ih
    rw [hcons]
    exact ih.trans ((List.sublist_cons_self a back).append_left front)
  | cons_cons a _ ih =>
    rw [mergeSort_cons_eq htrans htotal, mergeSort_cons_eq htrans htotal]
    exact (ih.filter _).append ((ih.filter _).cons_cons a)

end Sorting

/-- Fewer documents, sorted, are found in the same order among more of them, sorted. -/
theorem sublist_sortDocuments (keys : List SortKey) {documents others : List Value}
    (h : documents.Sublist others) :
    (sortDocuments keys documents).Sublist (sortDocuments keys others) :=
  sublist_mergeSort_of_sublist (SortKey.isLE_compareAll_trans keys)
    (SortKey.isLE_compareAll_total keys) h

end JoinPlan
