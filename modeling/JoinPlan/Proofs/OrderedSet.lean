import Mathlib.Data.List.Induction
import JoinPlan.OrderedSet
import JoinPlan.Proofs.Json.Equality

/-!
# What insertion adds to an ordered set

`insertNew` asks of one item after the other whether the list holds an equal one, while the list
grows. This file supplies what comes of it in terms of the list and the items as they were.

> `insertNew_eq_put`: at its end the list gets those of the items that it did not hold, each at
> its first occurrence.

An item may equal one before it that was passed over, and so is not in the list itself. That one
was passed over for a third which is, and by transitivity the list answers for all items before
(`contains_firstOccurrences`). The end at which the new elements stand changes nothing but the
order (`Placement.put_perm`), hence membership and distinctness are read off one list for both.

Elements are compared with `==` and nothing more is asked of it than symmetry and transitivity, but
where an insertion is repeated: an item that does not equal itself is new every time
(`insertNew_again_iff`).
-/

namespace JoinPlan

section Occurrences

variable {α : Type} [BEq α]

/-- The items that equal none of the items before them. -/
def firstOccurrences (items : List α) : List α :=
  (items.zipIdx.filter fun (item, i) => !(items.take i).contains item).map Prod.fst

theorem firstOccurrences_concat (front : List α) (last : α) :
    firstOccurrences (front ++ [last]) =
      if front.contains last then firstOccurrences front else firstOccurrences front ++ [last] := by
  have hfront : (front.zipIdx.filter fun (item, i) => !((front ++ [last]).take i).contains item) =
      front.zipIdx.filter fun (item, i) => !(front.take i).contains item := by
    refine List.filter_congr fun ⟨item, i⟩ hmem => ?_
    have hi : i < front.length := (List.mem_zipIdx' hmem).1
    show (!((front ++ [last]).take i).contains item) = !(front.take i).contains item
    rw [List.take_append_of_le_length (Nat.le_of_lt hi)]
  unfold firstOccurrences
  rw [List.zipIdx_append, List.filter_append, hfront]
  cases h : front.contains last <;> simp [h]

theorem firstOccurrences_sublist (items : List α) : (firstOccurrences items).Sublist items := by
  have hmap := (List.filter_sublist (p := fun (item, i) => !(items.take i).contains item)
    (l := items.zipIdx)).map Prod.fst
  rwa [List.zipIdx_map_fst] at hmap

theorem firstOccurrences_eq_nil_iff {items : List α} :
    firstOccurrences items = [] ↔ items = [] := by
  cases items with
  | nil => exact ⟨fun _ => rfl, fun _ => rfl⟩
  | cons item rest => simp [firstOccurrences, List.zipIdx_cons]

variable [PartialEquivBEq α]

/-- Whatever equals an item equals the first occurrence of one. -/
theorem contains_firstOccurrences (items : List α) (x : α) :
    (firstOccurrences items).contains x = items.contains x := by
  induction items using List.reverseRecOn with
  | nil => rfl
  | append_singleton front last ih =>
    rw [firstOccurrences_concat, List.contains_append]
    split
    next hlast =>
      rw [ih]
      cases hx : x == last with
      | true => simp [List.contains_congr hx, hlast]
      | false => simp [hx]
    next => rw [List.contains_append, ih]

/-- An element differs from what the list does not hold. -/
theorem bne_of_mem {items : List α} {x y : α} (hx : x ∈ items) (hy : ¬items.contains y) :
    x != y := by
  rw [bne_comm, bne, Bool.not_eq_true', Bool.eq_false_iff]
  exact fun heq => hy (List.contains_iff_exists_mem_beq.mpr ⟨x, hx, heq⟩)

theorem pairwise_firstOccurrences (items : List α) :
    (firstOccurrences items).Pairwise (· != ·) := by
  induction items using List.reverseRecOn with
  | nil => exact .nil
  | append_singleton front last ih =>
    rw [firstOccurrences_concat]
    split
    next => exact ih
    next hlast =>
      refine List.pairwise_append.mpr ⟨ih, List.pairwise_singleton _ _, fun x hx y hy => ?_⟩
      rw [List.mem_singleton.mp hy]
      exact bne_of_mem ((firstOccurrences_sublist front).subset hx) hlast

end Occurrences

/-! ## The two ends -/

namespace Placement

variable {α : Type} (placement : Placement) (set news : List α)

/-- New elements at an end of a set, where they were placed one by one. -/
def put : List α :=
  match placement with
  | .back => set ++ news
  | .front => news.reverse ++ set

/-- Both ends give the same elements. -/
theorem put_perm : (placement.put set news).Perm (set ++ news) := by
  cases placement with
  | back => exact .refl _
  | front => exact (news.reverse_perm.append_right set).trans List.perm_append_comm

theorem sublist_put : set.Sublist (placement.put set news) := by
  cases placement with
  | back => exact List.sublist_append_left set news
  | front => exact List.sublist_append_right news.reverse set

theorem put_eq_self_iff : placement.put set news = set ↔ news = [] := by
  cases placement <;> simp [put]

/-- One more item joins the new elements, unless there is an equal one among all of them. -/
theorem insertOne_put [BEq α] (item : α) : insertOne placement (placement.put set news) item =
    placement.put set
      (if set.contains item || news.contains item then news else news ++ [item]) := by
  unfold insertOne
  rw [(placement.put_perm set news).contains_eq, List.contains_append]
  split
  next => rfl
  next => cases placement <;> simp [put]

end Placement

/-! ## Insertion -/

section Insertion

variable {α : Type} [BEq α] [PartialEquivBEq α] (set : List α) (placement : Placement)
  (items : List α)

/-- What an insertion adds are the first occurrences of the items that the set does not hold. -/
theorem insertNew_eq_put : insertNew set placement items =
    placement.put set (firstOccurrences (items.filter fun x => !set.contains x)) := by
  induction items using List.reverseRecOn with
  | nil => exact ((placement.put_eq_self_iff set []).mpr rfl).symm
  | append_singleton front last ih =>
    rw [insertNew_append, ih]
    show insertOne placement _ last = _
    rw [Placement.insertOne_put, contains_firstOccurrences, List.filter_append]
    cases hset : set.contains last with
    | true =>
      have hlast : [last].filter (fun x => !set.contains x) = [] := by simp [hset]
      rw [hlast, List.append_nil, Bool.true_or, if_pos rfl]
    | false =>
      have hlast : [last].filter (fun x => !set.contains x) = [last] := by simp [hset]
      rw [hlast, firstOccurrences_concat, Bool.false_or]

example : insertNew ["c"] .front ["a", "b", "b", "c"] = ["b", "a", "c"] := by decide

theorem sublist_insertNew : set.Sublist (insertNew set placement items) := by
  rw [insertNew_eq_put]
  exact placement.sublist_put set _

/-- What equals an element afterwards equals one of the set or an item. -/
theorem contains_insertNew (x : α) :
    (insertNew set placement items).contains x = (set.contains x || items.contains x) := by
  rw [insertNew_eq_put, (placement.put_perm set _).contains_eq, List.contains_append,
    contains_firstOccurrences]
  cases hset : set.contains x with
  | true => rw [Bool.true_or, Bool.true_or]
  | false =>
    rw [Bool.false_or, Bool.false_or, Bool.eq_iff_iff]
    simp only [List.contains_iff_exists_mem_beq]
    constructor
    · rintro ⟨y, hy, heq⟩
      exact ⟨y, (List.mem_filter.mp hy).1, heq⟩
    · rintro ⟨y, hy, heq⟩
      -- An item that equals `x` is as new as `x` is.
      have hnew : set.contains y = false := List.contains_congr heq ▸ hset
      exact ⟨y, List.mem_filter.mpr ⟨hy, by rw [hnew]; rfl⟩, heq⟩

/-- Different elements stay so, and what is added differs from them. -/
theorem pairwise_insertNew (h : set.Pairwise (· != ·)) :
    (insertNew set placement items).Pairwise (· != ·) := by
  rw [insertNew_eq_put]
  refine ((placement.put_perm set _).pairwise_iff fun hne => bne_comm.symm.trans hne).mpr ?_
  refine List.pairwise_append.mpr ⟨h, pairwise_firstOccurrences _, fun x hx y hy => ?_⟩
  have hnew := List.mem_filter.mp ((firstOccurrences_sublist _).subset hy)
  exact bne_of_mem hx (by simpa using hnew.2)

/-- Nothing is added exactly when all items are there. -/
theorem insertNew_eq_self_iff : insertNew set placement items = set ↔
    ∀ x ∈ items, set.contains x := by
  rw [insertNew_eq_put, Placement.put_eq_self_iff, firstOccurrences_eq_nil_iff,
    List.filter_eq_nil_iff]
  simp

/-- An insertion that is repeated, at either end, adds nothing exactly when every item equals
itself. -/
theorem insertNew_again_iff (again : Placement) :
    insertNew (insertNew set placement items) again items = insertNew set placement items ↔
      ∀ x ∈ items, x == x := by
  rw [insertNew_eq_self_iff]
  refine forall₂_congr fun x hx => ?_
  rw [contains_insertNew, Bool.or_eq_true]
  constructor
  · intro hheld
    obtain ⟨y, -, heq⟩ : ∃ y ∈ set ++ items, x == y := by
      rw [← List.contains_iff_exists_mem_beq, List.contains_append, Bool.or_eq_true]
      exact hheld
    exact BEq.trans heq (BEq.symm heq)
  · intro hself
    exact .inr (List.contains_iff_exists_mem_beq.mpr ⟨x, hx, hself⟩)

end Insertion

/-! ## Elements that are equal only when they are the same -/

section Lawful

variable {α : Type} [BEq α] [LawfulBEq α]

theorem firstOccurrences_eq_eraseDups (items : List α) :
    firstOccurrences items = items.eraseDups := by
  induction items using List.reverseRecOn with
  | nil => exact List.eraseDups_nil.symm
  | append_singleton front last ih =>
    rw [firstOccurrences_concat, ih, List.eraseDups_append]
    by_cases hlast : last ∈ front <;> simp [List.removeAll, hlast, List.eraseDups_cons]

/-- Inserting what is new, from nothing, keeps the first occurrences. -/
theorem insertNew_nil_back (items : List α) : insertNew [] .back items = items.eraseDups := by
  rw [insertNew_eq_put, firstOccurrences_eq_eraseDups]
  simp [Placement.put]

/-- A list of different elements stays one. -/
theorem nodup_insertNew_back {set items : List α} (h : set.Nodup) :
    (insertNew set .back items).Nodup := by
  have hne : ∀ {x y : α}, (x != y) = true ↔ x ≠ y := bne_iff_ne
  exact (pairwise_insertNew set .back items (h.imp hne.mpr)).imp hne.mp

end Lawful

/-! ## What insertion does -/

/-- Insertion keeps a set. To a list, items are added at the back as they first occur among those
that equal no element of it, at the front the same elements in reverse. At either end the elements
keep their order, a list of different elements stays one, what is in the list afterwards was in it
or is an item, and what equals an element afterwards is what equalled one or equals an item. To
insert twice is to insert the items of both, and to insert the same items again, at whichever end,
changes nothing. -/
theorem insertNew_adds_firstOccurrences {α : Type} [BEq α] [EquivBEq α] (set xs ys : List α) :
    insertNew set .back xs =
        set ++ firstOccurrences (xs.filter fun x => !set.contains x) ∧
      insertNew set .front xs =
        (firstOccurrences (xs.filter fun x => !set.contains x)).reverse ++ set ∧
      ∀ placement,
        set.Sublist (insertNew set placement xs) ∧
        (set.Pairwise (· != ·) → (insertNew set placement xs).Pairwise (· != ·)) ∧
        insertNew set placement xs ⊆ set ++ xs ∧
        (∀ x, (insertNew set placement xs).contains x = (set.contains x || xs.contains x)) ∧
        insertNew (insertNew set placement xs) placement ys =
          insertNew set placement (xs ++ ys) ∧
        ∀ again, insertNew (insertNew set placement xs) again xs = insertNew set placement xs := by
  refine ⟨insertNew_eq_put set .back xs, insertNew_eq_put set .front xs, fun placement => ?_⟩
  refine ⟨sublist_insertNew set placement xs, pairwise_insertNew set placement xs,
    fun x hx => List.mem_append.mpr (mem_of_mem_insertNew hx), contains_insertNew set placement xs,
    (insertNew_append set placement xs ys).symm, fun again => ?_⟩
  exact (insertNew_again_iff set placement xs again).mpr fun x _ => BEq.refl x

/-- The positive and the negative zero. -/
def zeroDocument (negative : Bool) : Value.Keyed :=
  ⟨.number (.float (.zero negative)), trivial⟩

/-- An object with two members, in one order or the other. -/
def pairDocument (swapped : Bool) : Value.Keyed :=
  let members := [("a", .bool true), ("b", .null)]
  ⟨.object (if swapped then members.reverse else members),
    by cases swapped <;> simp [members, Value.DistinctKeys, Value.DistinctKeysMembers]⟩

/-- Documents that equal one another or the positive zero. -/
def equalDocuments : List Value.Keyed := [zeroDocument true, pairDocument true, pairDocument false]

/-- Of documents that are equal and differ the first is kept, and it stands for the other when the
items come again. -/
theorem insertNew_adds_firstOccurrences_documents :
    zeroDocument true ≠ zeroDocument false ∧ pairDocument true ≠ pairDocument false ∧
      insertNew [zeroDocument false] .back equalDocuments =
        [zeroDocument false, pairDocument true] ∧
      insertNew [zeroDocument false] .front equalDocuments =
        [pairDocument true, zeroDocument false] ∧
      (insertNew [zeroDocument false] .front equalDocuments).Pairwise (· != ·) ∧
      insertNew (insertNew [zeroDocument false] .front equalDocuments) .back equalDocuments =
        [pairDocument true, zeroDocument false] := by
  obtain ⟨hback, hfront, hends⟩ :=
    insertNew_adds_firstOccurrences [zeroDocument false] equalDocuments []
  obtain ⟨-, hdifferent, -, -, -, hagain⟩ := hends .front
  have hkept : insertNew [zeroDocument false] .front equalDocuments =
      [pairDocument true, zeroDocument false] := hfront.trans rfl
  refine ⟨?_, ?_, hback.trans rfl, hkept, hdifferent (List.pairwise_singleton _ _), ?_⟩
  · simp [zeroDocument, Binary64.zero]
  · simp [pairDocument]
  · exact (hagain .back).trans hkept

end JoinPlan
