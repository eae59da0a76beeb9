/-!
# Lists as ordered sets

A list whose elements are meant to be different is filled by `insertNew`, which
takes only what the list does not hold yet and keeps the order of the rest. New
elements go to the back, or one by one to the front. What is in the list afterwards
does not depend on the place, `mem_insertNew`.
-/

namespace JoinPlan

/-- The end of a list at which new elements are placed. -/
inductive Placement where
  | back
  | front
deriving DecidableEq, Repr

/-- The list with an element, unless it holds an equal one. -/
def insertOne {α : Type} [BEq α] (placement : Placement) (set : List α) (item : α) : List α :=
  if set.contains item then set
  else
    match placement with
    | .back => set ++ [item]
    | .front => item :: set

/-- The list with every item that it does not hold, one after the other. -/
def insertNew {α : Type} [BEq α] (set : List α) (placement : Placement) (items : List α) :
    List α :=
  items.foldl (insertOne placement) set

theorem insertNew_append {α : Type} [BEq α] (set : List α) (placement : Placement)
    (xs ys : List α) :
    insertNew set placement (xs ++ ys) = insertNew (insertNew set placement xs) placement ys :=
  List.foldl_append

/-- Whatever is in the list was there before or is one of the items. -/
theorem mem_of_mem_insertNew {α : Type} [BEq α] {set items : List α} {placement : Placement}
    {x : α} (h : x ∈ insertNew set placement items) : x ∈ set ∨ x ∈ items := by
  induction items generalizing set with
  | nil => exact .inl h
  | cons item rest ih =>
    rcases ih h with hset | hrest
    · unfold insertOne at hset
      split at hset
      · exact .inl hset
      · cases placement with
        | back =>
          rcases List.mem_append.mp hset with hold | hnew
          · exact .inl hold
          · exact .inr (List.mem_singleton.mp hnew ▸ List.mem_cons_self)
        | front =>
          rcases List.mem_cons.mp hset with rfl | hold
          · exact .inr List.mem_cons_self
          · exact .inl hold
    · exact .inr (List.mem_cons_of_mem _ hrest)

theorem mem_append_cons {α : Type} {set rest : List α} {x : α} (item : α) (h : x ∈ set ++ rest) :
    x ∈ set ++ item :: rest :=
  ((List.sublist_cons_self item rest).append_left set).subset h

section Lawful

variable {α : Type} [BEq α] [LawfulBEq α] {placement : Placement} {set items : List α}

theorem insertOne_of_mem {item : α} (h : item ∈ set) : insertOne placement set item = set := by
  unfold insertOne
  exact if_pos (List.contains_iff_mem.mpr h)

theorem insertOne_back_of_notMem {item : α} (h : item ∉ set) :
    insertOne .back set item = set ++ [item] := by
  unfold insertOne
  exact if_neg (mt List.contains_iff_mem.mp h)

theorem mem_insertOne {item x : α} : x ∈ insertOne placement set item ↔ x ∈ set ∨ x = item := by
  by_cases hitem : item ∈ set
  · rw [insertOne_of_mem hitem]
    refine ⟨.inl, fun h => h.elim id fun hx => ?_⟩
    rw [hx]
    exact hitem
  · unfold insertOne
    rw [if_neg (mt List.contains_iff_mem.mp hitem)]
    cases placement with
    | back => rw [List.mem_append, List.mem_singleton]
    | front => rw [List.mem_cons, or_comm]

/-- In the list afterwards is what was there before and every item. -/
theorem mem_insertNew {x : α} : x ∈ insertNew set placement items ↔ x ∈ set ∨ x ∈ items := by
  induction items generalizing set with
  | nil => exact ⟨.inl, fun h => h.resolve_right List.not_mem_nil⟩
  | cons item rest ih =>
    show x ∈ insertNew (insertOne placement set item) placement rest ↔ _
    rw [ih, mem_insertOne, List.mem_cons, or_assoc]

/-- A function that tells the elements apart keeps what is new. -/
theorem map_insertNew_back {β : Type} [BEq β] [LawfulBEq β] {f : α → β}
    (h : ∀ x ∈ set ++ items, ∀ y ∈ set ++ items, f x = f y → x = y) :
    (insertNew set .back items).map f = insertNew (set.map f) .back (items.map f) := by
  induction items generalizing set with
  | nil => rfl
  | cons item rest ih =>
    show (insertNew (insertOne .back set item) .back rest).map f =
      insertNew (insertOne .back (set.map f) (f item)) .back (rest.map f)
    have hitem : item ∈ set ++ item :: rest := List.mem_append_right _ List.mem_cons_self
    by_cases hin : item ∈ set
    · rw [insertOne_of_mem hin, insertOne_of_mem (List.mem_map_of_mem hin)]
      exact ih fun x hx y hy => h x (mem_append_cons item hx) y (mem_append_cons item hy)
    · have hnew : f item ∉ set.map f := by
        intro hmem
        obtain ⟨x, hx, heq⟩ := List.mem_map.mp hmem
        have hsame : x = item := h x (List.mem_append_left _ hx) item hitem heq
        rw [hsame] at hx
        exact hin hx
      rw [insertOne_back_of_notMem hin, insertOne_back_of_notMem hnew]
      have hmap : set.map f ++ [f item] = (set ++ [item]).map f := by simp
      rw [hmap]
      refine ih ?_
      rwa [List.append_assoc, List.singleton_append]

/-- What is new, of the elements with a property. -/
theorem filter_insertNew_back (p : α → Bool) (set items : List α) :
    (insertNew set .back items).filter p = insertNew (set.filter p) .back (items.filter p) := by
  induction items generalizing set with
  | nil => rfl
  | cons item rest ih =>
    show (insertNew (insertOne .back set item) .back rest).filter p = _
    rw [ih, List.filter_cons]
    by_cases hitem : item ∈ set
    · rw [insertOne_of_mem hitem]
      by_cases hp : p item = true
      · rw [if_pos hp]
        show _ = insertNew (insertOne .back (set.filter p) item) .back (rest.filter p)
        rw [insertOne_of_mem (List.mem_filter.mpr ⟨hitem, hp⟩)]
      · rw [if_neg hp]
    · rw [insertOne_back_of_notMem hitem, List.filter_append]
      by_cases hp : p item = true
      · rw [if_pos hp, List.filter_cons_of_pos hp, List.filter_nil]
        show _ = insertNew (insertOne .back (set.filter p) item) .back (rest.filter p)
        rw [insertOne_back_of_notMem fun hmem => hitem (List.mem_filter.mp hmem).1]
      · rw [if_neg hp, List.filter_cons_of_neg hp, List.filter_nil, List.append_nil]

end Lawful

end JoinPlan
