import Mathlib.Data.List.Permutation
import JoinPlan.Proofs.Store.Sorting

/-!
# What sorting does

Comparisons of what is found, and of documents by sort keys, are transitive and total. This
file supplies what follows for sorted documents.

> `SortKey.PutsAfter`: a key puts one document after another when the first value found in it
> compares greater, or less for a descending key.
>
> `sortDocuments_stable`: a sorted list has the same documents, none behind one that it
> comes before, and those that tie at every key in the order in which they came.

Documents compare by the first key that tells them apart (`compareAll_eq_first`), and a key
tells them apart or not whatever its direction. Documents that tie with one document tie with
each other, so they are a sublist that is sorted as it is, and a stable sort keeps it whole
(`filter_mergeSort_of_tied`).
-/

namespace JoinPlan

/-! ## Comparing in steps -/

/-- Two steps that do not go down make one that does not, and it is level only when both
are. -/
theorem compare_ne_gt_trans {α : Type} {cmp : α → α → Ordering} [Std.TransCmp cmp] {a b c : α}
    (hab : cmp a b ≠ .gt) (hbc : cmp b c ≠ .gt) :
    cmp a c ≠ .gt ∧ (cmp a c = .eq ↔ cmp a b = .eq ∧ cmp b c = .eq) := by
  have hab' : (cmp a b).isLE := Ordering.isLE_iff_ne_gt.mpr hab
  have hbc' : (cmp b c).isLE := Ordering.isLE_iff_ne_gt.mpr hbc
  refine ⟨Ordering.isLE_iff_ne_gt.mp (Std.TransCmp.isLE_trans hab' hbc'), fun hac => ?_, ?_⟩
  · -- A step up at either place would be a step up from `a` to `c`.
    cases hab'' : cmp a b with
    | gt => exact absurd hab'' hab
    | lt =>
      have hup := Std.TransCmp.lt_of_lt_of_isLE hab'' hbc'
      rw [hac] at hup
      cases hup
    | eq =>
      cases hbc'' : cmp b c with
      | gt => exact absurd hbc'' hbc
      | eq => exact ⟨rfl, rfl⟩
      | lt =>
        have hup := Std.TransCmp.lt_of_isLE_of_lt hab' hbc''
        rw [hac] at hup
        cases hup
  · rintro ⟨hab'', hbc''⟩
    exact Std.TransCmp.eq_trans hab'' hbc''

/-! ## The first key that counts -/

namespace SortKey

variable {keys : List SortKey} {key : SortKey} {a b : Value}

/-- Whether what is found at a path tells two documents apart. -/
def tellsApart (path : String) (a b : Value) : Bool :=
  compareFound (a.lookup path).head? (b.lookup path).head? != .eq

/-- A key puts a document after another one, by the first value found in each of them. -/
def PutsAfter (key : SortKey) (a b : Value) : Prop :=
  match key.direction with
  | .ascending => compareFound (a.lookup key.path).head? (b.lookup key.path).head? = .gt
  | .descending => compareFound (a.lookup key.path).head? (b.lookup key.path).head? = .lt

theorem compare_eq_gt_iff : key.compare a b = .gt ↔ key.PutsAfter a b := by
  unfold SortKey.compare PutsAfter
  cases key.direction with
  | ascending => exact Iff.rfl
  | descending => exact Ordering.swap_eq_gt

/-- The direction of a key has no part in whether two documents tie. -/
theorem compare_eq_eq_iff : key.compare a b = .eq ↔ tellsApart key.path a b = false := by
  unfold SortKey.compare tellsApart
  rw [bne_eq_false_iff_eq]
  cases key.direction with
  | ascending => exact Iff.rfl
  | descending => exact Ordering.swap_eq_eq

theorem compare_ne_eq_iff : key.compare a b ≠ .eq ↔ tellsApart key.path a b = true := by
  rw [Ne, compare_eq_eq_iff, Bool.not_eq_false]

/-- Documents compare as they do at the first key that tells them apart. -/
theorem compareAll_eq_first (keys : List SortKey) (a b : Value) :
    compareAll keys a b =
      ((keys.find? fun key => tellsApart key.path a b).map (·.compare a b)).getD .eq := by
  induction keys with
  | nil => rfl
  | cons key rest ih =>
    rw [compareAll, List.find?_cons]
    cases happart : tellsApart key.path a b with
    | false => rw [compare_eq_eq_iff.mpr happart, ih, Ordering.eq_then]
    | true =>
      show (key.compare a b).then (compareAll rest a b) = key.compare a b
      cases hkey : key.compare a b with
      | eq => exact absurd hkey (compare_ne_eq_iff.mpr happart)
      | lt => rfl
      | gt => rfl

/-- Documents tie when they tie at every key. -/
theorem compareAll_eq_eq_iff : compareAll keys a b = .eq ↔ ∀ key ∈ keys, key.compare a b = .eq := by
  rw [compareAll_eq_first]
  cases hfirst : keys.find? fun key => tellsApart key.path a b with
  | none =>
    refine ⟨fun _ key hkey => ?_, fun _ => rfl⟩
    exact compare_eq_eq_iff.mpr (Bool.eq_false_iff.mpr (List.find?_eq_none.mp hfirst key hkey))
  | some key =>
    have happart : tellsApart key.path a b = true := by simpa using List.find?_some hfirst
    have hne : key.compare a b ≠ .eq := compare_ne_eq_iff.mpr happart
    exact ⟨fun h => absurd h hne, fun h => absurd (h key (List.mem_of_find?_eq_some hfirst)) hne⟩

/-- The first key that tells two documents apart does not put the first after the second. -/
def InOrder (keys : List SortKey) (a b : Value) : Prop :=
  ∀ before key after, keys = before ++ key :: after →
    (∀ earlier ∈ before, tellsApart earlier.path a b = false) → ¬key.PutsAfter a b

theorem inOrder_of_compareAll (h : compareAll keys a b ≠ .gt) : InOrder keys a b := by
  rintro before key after rfl hbefore hafter
  have hgt := compare_eq_gt_iff.mpr hafter
  have happart : tellsApart key.path a b = true := by
    rw [← compare_ne_eq_iff, hgt]
    exact Ordering.noConfusion
  have hfirst : (before ++ key :: after).find? (fun key => tellsApart key.path a b) = some key := by
    refine List.find?_eq_some_iff_append.mpr ⟨happart, before, after, rfl, ?_⟩
    intro earlier hearlier
    rw [hbefore earlier hearlier]
    rfl
  rw [compareAll_eq_first, hfirst] at h
  exact h hgt

/-- Whether no key tells two documents apart. -/
def ties (keys : List SortKey) (a b : Value) : Bool :=
  keys.all fun key => !tellsApart key.path a b

theorem ties_iff : ties keys a b = true ↔ compareAll keys a b = .eq := by
  rw [compareAll_eq_eq_iff, ties, List.all_eq_true]
  simp only [Bool.not_eq_true', compare_eq_eq_iff]

end SortKey

/-! ## Sorted documents -/

/-- What ties with one another stays whole and in its order. -/
theorem filter_mergeSort_of_tied {α : Type} {le : α → α → Bool}
    (htrans : ∀ a b c, le a b → le b c → le a c) (htotal : ∀ a b, le a b || le b a)
    {p : α → Bool} (htied : ∀ a b, p a → p b → le a b) (xs : List α) :
    (xs.mergeSort le).filter p = xs.filter p := by
  have hsorted : (xs.filter p).Pairwise fun a b => le a b :=
    List.pairwise_filter.mpr (List.pairwise_of_forall htied)
  have hsublist : (xs.filter p).Sublist ((xs.mergeSort le).filter p) := by
    have h := (List.sublist_mergeSort htrans htotal hsorted List.filter_sublist).filter p
    rwa [List.filter_eq_self.mpr fun x hx => (List.mem_filter.mp hx).2] at h
  exact (hsublist.eq_of_length ((List.mergeSort_perm xs le).filter p).length_eq.symm).symm

section Sorted

variable (keys : List SortKey) (documents : List Value)

theorem pairwise_sortDocuments :
    (sortDocuments keys documents).Pairwise (SortKey.InOrder keys) := by
  have hsorted := List.pairwise_mergeSort (SortKey.isLE_compareAll_trans keys)
    (SortKey.isLE_compareAll_total keys) documents
  exact hsorted.imp fun hle => SortKey.inOrder_of_compareAll (Ordering.isLE_iff_ne_gt.mp hle)

theorem filter_ties_sortDocuments (document : Value) :
    (sortDocuments keys documents).filter (SortKey.ties keys document) =
      documents.filter (SortKey.ties keys document) := by
  refine filter_mergeSort_of_tied (SortKey.isLE_compareAll_trans keys)
    (SortKey.isLE_compareAll_total keys) (fun a b ha hb => ?_) documents
  have ha' : SortKey.compareAll keys a document = .eq :=
    Std.OrientedCmp.eq_symm (SortKey.ties_iff.mp ha)
  rw [Std.TransCmp.eq_trans ha' (SortKey.ties_iff.mp hb)]
  rfl

end Sorted

/-- Sorting is a stable sort by a genuine order. What is found, or nothing, compares the other
way round from the other side, and a chain of comparisons that never goes down ends no lower,
and level only when it was level all the way. So the sorted list has the documents of the
list, never one behind a document that some key puts after it while the keys before do not tell
them apart, and the documents that no key tells apart from any one document in the order in which
they came. -/
theorem sortDocuments_stable :
    (∀ a b, compareFound b a = (compareFound a b).swap) ∧
      (∀ a b c, compareFound a b ≠ .gt → compareFound b c ≠ .gt →
        compareFound a c ≠ .gt ∧
          (compareFound a c = .eq ↔ compareFound a b = .eq ∧ compareFound b c = .eq)) ∧
      ∀ keys documents,
        (sortDocuments keys documents).Perm documents ∧
          (sortDocuments keys documents).Pairwise (SortKey.InOrder keys) ∧
          ∀ document, (sortDocuments keys documents).filter (SortKey.ties keys document) =
            documents.filter (SortKey.ties keys document) := by
  refine ⟨fun a b => Std.OrientedCmp.eq_swap, fun a b c => compare_ne_gt_trans, ?_⟩
  intro keys documents
  exact ⟨List.mergeSort_perm documents _, pairwise_sortDocuments keys documents,
    filter_ties_sortDocuments keys documents⟩

/-- A document with a grade, and a tag by which it is not sorted. -/
def graded (grade tag : String) : Value :=
  .object [("grade", .string grade), ("tag", .string tag)]

/-- From a number over a larger one to a string nothing goes down. Two documents change places
when the first is graded higher and the key ascends, and when it is graded lower and the key
descends. Of documents sorted by grade those of one grade stay as they came. -/
theorem sortDocuments_stable_graded :
    (compareFound (some (.ofInt 1)) (some (.ofInt 2)) ≠ .gt ∧
      compareFound (some (.ofInt 2)) (some (.string "1")) ≠ .gt ∧
      compareFound (some (.ofInt 1)) (some (.string "1")) ≠ .gt) ∧
    sortDocuments [⟨"grade", .ascending⟩] [graded "b" "first", graded "a" "second"] =
      [graded "a" "second", graded "b" "first"] ∧
    sortDocuments [⟨"grade", .descending⟩] [graded "a" "first", graded "b" "second"] =
      [graded "b" "second", graded "a" "first"] ∧
    (sortDocuments [⟨"grade", .ascending⟩] [graded "b" "first", graded "a" "second",
        graded "b" "third"]).filter (SortKey.ties [⟨"grade", .ascending⟩] (graded "b" "")) =
      [graded "b" "first", graded "b" "third"] := by
  have hlow : compareFound (some (.ofInt 1)) (some (.ofInt 2)) ≠ .gt := by decide +kernel
  have hhigh : compareFound (some (.ofInt 2)) (some (.string "1")) ≠ .gt := by decide +kernel
  obtain ⟨-, hchain, hsorted⟩ := sortDocuments_stable
  -- Two documents stand in one of two orders, and the one they came in is not that of the key.
  have hswapped : ∀ key a b, key.PutsAfter a b → sortDocuments [key] [a, b] = [b, a] := by
    intro key a b hafter
    obtain ⟨hperm, hordered, -⟩ := hsorted [key] [a, b]
    rcases List.perm_pair.mp hperm with hcame | hswapped
    · rw [hcame] at hordered
      have hinorder := List.rel_of_pairwise_cons hordered List.mem_cons_self
      exact absurd hafter (hinorder [] key [] rfl nofun)
    · exact hswapped
  refine ⟨⟨hlow, hhigh, (hchain _ _ _ hlow hhigh).1⟩, hswapped _ _ _ ?_, hswapped _ _ _ ?_, ?_⟩
  · show compareFound _ _ = .gt
    decide +kernel
  · show compareFound _ _ = .lt
    decide +kernel
  · rw [(hsorted _ _).2.2]
    rfl

end JoinPlan
