/-!
# Maps sorted by name

A map from names to values, held as its entries in the order of the names. There
is one list of entries for each map, so maps that answer alike are equal:
`ext_get?`. Hence a map does not remember the order in which it was filled, and its
entries are what it answers: `get?_eq_some_iff`. It is the map of its entries,
`ofList_entries`.
-/

namespace JoinPlan

/-- A map from names, in code point order of the names. -/
structure SortedMap (α : Type) where
  entries : List (String × α)
  sorted : entries.Pairwise fun a b => a.1 < b.1

namespace SortedMap

variable {α : Type}

/-- The map without entries. -/
def empty : SortedMap α := ⟨[], .nil⟩

instance : Inhabited (SortedMap α) := ⟨empty⟩

instance [DecidableEq α] : DecidableEq (SortedMap α) := fun a b =>
  if h : a.entries = b.entries then
    .isTrue (by cases a; cases b; simp_all)
  else .isFalse fun e => h (congrArg entries e)

/-- The value under a name among entries. -/
def find? : List (String × α) → String → Option α
  | [], _ => none
  | (name, value) :: rest, key => if name = key then some value else find? rest key

/-- The value under a name. -/
def get? (map : SortedMap α) (key : String) : Option α := find? map.entries key

/-- Whether the map has a name. -/
def contains (map : SortedMap α) (key : String) : Bool := (map.get? key).isSome

/-- The names, in order. -/
def keys (map : SortedMap α) : List String := map.entries.map Prod.fst

/-- The values, in the order of their names. -/
def values (map : SortedMap α) : List α := map.entries.map Prod.snd

/-- The number of entries. -/
def size (map : SortedMap α) : Nat := map.entries.length

/-- Entries with one put in its place, instead of an entry of the same name. -/
def put (key : String) (value : α) : List (String × α) → List (String × α)
  | [] => [(key, value)]
  | (name, old) :: rest =>
    if key < name then (key, value) :: (name, old) :: rest
    else if name = key then (key, value) :: rest
    else (name, old) :: put key value rest

theorem mem_put {key : String} {value : α} {entries : List (String × α)} {e : String × α}
    (h : e ∈ put key value entries) : e = (key, value) ∨ e ∈ entries := by
  induction entries with
  | nil => simpa [put] using h
  | cons entry rest ih =>
    obtain ⟨name, old⟩ := entry
    simp only [put] at h
    split at h
    · simpa using h
    · split at h
      · rcases List.mem_cons.mp h with h | h
        · exact .inl h
        · exact .inr (List.mem_cons_of_mem _ h)
      · rcases List.mem_cons.mp h with h | h
        · exact .inr (by simp [h])
        · exact (ih h).imp_right (List.mem_cons_of_mem _)

theorem lt_of_not_lt_of_ne {a b : String} (h : ¬a < b) (hne : b ≠ a) : b < a := by
  have hle : b ≤ a := String.not_lt.mp h
  by_cases hlt : b < a
  · exact hlt
  · exact absurd (String.le_antisymm hle (String.not_lt.mp hlt)) hne

theorem sorted_put {key : String} {value : α} {entries : List (String × α)}
    (h : entries.Pairwise fun a b => a.1 < b.1) :
    (put key value entries).Pairwise fun a b => a.1 < b.1 := by
  induction entries with
  | nil => simp [put]
  | cons entry rest ih =>
    obtain ⟨name, old⟩ := entry
    rw [List.pairwise_cons] at h
    simp only [put]
    split
    · next hlt =>
      refine .cons (fun e he => ?_) (.cons h.1 h.2)
      rcases List.mem_cons.mp he with rfl | he
      · exact hlt
      · exact String.lt_trans hlt (h.1 e he)
    · next hlt =>
      split
      · next heq =>
        subst heq
        exact .cons h.1 h.2
      · next hne =>
        refine .cons (fun e he => ?_) (ih h.2)
        rcases mem_put he with rfl | he
        · exact lt_of_not_lt_of_ne hlt hne
        · exact h.1 e he

/-- The map with a value under a name. -/
def insert (map : SortedMap α) (key : String) (value : α) : SortedMap α :=
  ⟨put key value map.entries, sorted_put map.sorted⟩

/-- The map of a list of entries; of one name the last entry counts. -/
def ofList (entries : List (String × α)) : SortedMap α :=
  entries.foldl (fun map (key, value) => map.insert key value) empty

theorem find?_put_self (key : String) (value : α) (entries : List (String × α)) :
    find? (put key value entries) key = some value := by
  induction entries with
  | nil => simp [put, find?]
  | cons entry rest ih =>
    obtain ⟨name, old⟩ := entry
    simp only [put]
    split
    · simp [find?]
    · split
      · simp [find?]
      · next hne => simp [find?, hne, ih]

theorem find?_put_of_ne {key other : String} (h : other ≠ key) (value : α)
    (entries : List (String × α)) :
    find? (put key value entries) other = find? entries other := by
  induction entries with
  | nil => simp [put, find?, Ne.symm h]
  | cons entry rest ih =>
    obtain ⟨name, old⟩ := entry
    simp only [put]
    split
    · simp [find?, Ne.symm h]
    · split
      · next heq =>
        subst heq
        simp [find?, Ne.symm h]
      · simp only [find?, ih]

@[simp] theorem get?_insert_self (map : SortedMap α) (key : String) (value : α) :
    (map.insert key value).get? key = some value :=
  find?_put_self key value map.entries

theorem get?_insert_of_ne {key other : String} (h : other ≠ key) (map : SortedMap α) (value : α) :
    (map.insert key value).get? other = map.get? other :=
  find?_put_of_ne h value map.entries

@[simp] theorem get?_empty (key : String) : (empty : SortedMap α).get? key = none := rfl

theorem find?_eq_none_of_lt {key : String} {entries : List (String × α)}
    (h : ∀ e ∈ entries, key < e.1) : find? entries key = none := by
  induction entries with
  | nil => rfl
  | cons entry rest ih =>
    obtain ⟨name, value⟩ := entry
    have hlt : key < name := h _ List.mem_cons_self
    have hne : name ≠ key := fun e => String.lt_irrefl key (e ▸ hlt)
    simp only [find?, if_neg hne]
    exact ih fun e he => h e (List.mem_cons_of_mem _ he)

/-- A value stands under a name exactly when the two are an entry. -/
theorem get?_eq_some_iff {map : SortedMap α} {key : String} {value : α} :
    map.get? key = some value ↔ (key, value) ∈ map.entries := by
  obtain ⟨entries, sorted⟩ := map
  simp only [get?]
  induction entries with
  | nil => simp [find?]
  | cons entry rest ih =>
    obtain ⟨name, old⟩ := entry
    obtain ⟨hfirst, hrest⟩ := List.pairwise_cons.mp sorted
    by_cases hname : name = key
    · subst hname
      have hout : (name, value) ∉ rest := fun hmem => String.lt_irrefl name (hfirst _ hmem)
      simp [find?, hout, eq_comm]
    · simp [find?, hname, Ne.symm hname, ih hrest]

theorem entries_eq_of_find? {as bs : List (String × α)}
    (ha : as.Pairwise fun a b => a.1 < b.1) (hb : bs.Pairwise fun a b => a.1 < b.1)
    (h : ∀ key, find? as key = find? bs key) : as = bs := by
  induction as generalizing bs with
  | nil =>
    cases bs with
    | nil => rfl
    | cons b bs => simpa [find?] using h b.1
  | cons a as ih =>
    cases bs with
    | nil => simpa [find?] using h a.1
    | cons b bs =>
      obtain ⟨ka, va⟩ := a
      obtain ⟨kb, vb⟩ := b
      rw [List.pairwise_cons] at ha hb
      have hkey : ka = kb := by
        by_cases hlt : ka < kb
        · have : find? ((kb, vb) :: bs) ka = none := by
            refine find?_eq_none_of_lt fun e he => ?_
            rcases List.mem_cons.mp he with rfl | he
            · exact hlt
            · exact String.lt_trans hlt (hb.1 e he)
          have := (h ka).trans this
          simp [find?] at this
        · by_cases hgt : kb < ka
          · have : find? ((ka, va) :: as) kb = none := by
              refine find?_eq_none_of_lt fun e he => ?_
              rcases List.mem_cons.mp he with rfl | he
              · exact hgt
              · exact String.lt_trans hgt (ha.1 e he)
            have := (h kb).symm.trans this
            simp [find?] at this
          · exact String.le_antisymm (String.not_lt.mp hgt) (String.not_lt.mp hlt)
      subst hkey
      have hval : va = vb := by simpa [find?] using h ka
      subst hval
      congr 1
      refine ih ha.2 hb.2 fun key => ?_
      by_cases hk : ka = key
      · subst hk
        rw [find?_eq_none_of_lt ha.1, find?_eq_none_of_lt hb.1]
      · simpa [find?, hk] using h key

/-- What a function finds in the entries, it finds in what the map answers. -/
theorem mem_filterMap_entries_iff {β : Type} {map : SortedMap α} {f : α → Option β}
    {key : String} {x : β} :
    (key, x) ∈ (map.entries.filterMap fun (name, a) => (f a).map fun b => (name, b)) ↔
      ∃ a, map.get? key = some a ∧ f a = some x := by
  rw [List.mem_filterMap]
  constructor
  · rintro ⟨⟨name, a⟩, hentry, hfound⟩
    obtain ⟨b, hb, heq⟩ := Option.map_eq_some_iff.mp hfound
    obtain ⟨rfl, rfl⟩ := Prod.mk.inj heq
    exact ⟨a, get?_eq_some_iff.mpr hentry, hb⟩
  · rintro ⟨a, ha, hx⟩
    exact ⟨(key, a), get?_eq_some_iff.mp ha, Option.map_eq_some_iff.mpr ⟨x, hx, rfl⟩⟩

/-- What a function finds stands in the order of the names. -/
theorem sorted_filterMap_entries {β : Type} (map : SortedMap α) (f : α → Option β) :
    (map.entries.filterMap fun (name, a) => (f a).map fun b => (name, b)).Pairwise
      fun x y => x.1 < y.1 := by
  refine map.sorted.filterMap _ ?_
  intro a b hlt x hx y hy
  obtain ⟨foundInA, -, rfl⟩ := Option.map_eq_some_iff.mp hx
  obtain ⟨foundInB, -, rfl⟩ := Option.map_eq_some_iff.mp hy
  exact hlt

/-- Among entries in order, a search from the back finds the last by name. -/
theorem find?_reverse_eq_some_iff {entries : List (String × α)}
    (hsorted : entries.Pairwise fun a b => a.1 < b.1) {p : String × α → Bool} {e : String × α} :
    entries.reverse.find? p = some e ↔
      e ∈ entries ∧ p e = true ∧ ∀ other ∈ entries, p other = true → other.1 ≤ e.1 := by
  rw [List.find?_eq_some_iff_append]
  constructor
  · rintro ⟨hp, after, before, hsplit, hafter⟩
    have hentries : entries = before.reverse ++ e :: after.reverse := by
      rw [← List.reverse_reverse entries, hsplit]
      simp
    rw [hentries] at hsorted ⊢
    refine ⟨by simp, hp, fun other hother hpother => ?_⟩
    rcases List.mem_append.mp hother with hbefore | hrest
    · have hlt := (List.pairwise_append.mp hsorted).2.2 other hbefore e List.mem_cons_self
      exact String.not_lt.mp (String.lt_asymm hlt)
    · rcases List.mem_cons.mp hrest with rfl | hbehind
      · exact String.le_refl _
      · have hnot := hafter other (List.mem_reverse.mp hbehind)
        simp [hpother] at hnot
  · rintro ⟨hmem, hp, hlast⟩
    obtain ⟨before, after, rfl⟩ := List.append_of_mem hmem
    refine ⟨hp, after.reverse, before.reverse, by simp, fun other hother => ?_⟩
    have hbehind := List.mem_reverse.mp hother
    have hlt : e.1 < other.1 :=
      (List.pairwise_cons.mp (List.pairwise_append.mp hsorted).2.1).1 other hbehind
    rw [Bool.not_eq_true', Bool.eq_false_iff]
    intro hpother
    have hle := hlast other (by simp [hbehind]) hpother
    exact String.not_lt.mpr hle hlt

/-- Maps that answer alike are equal. -/
theorem ext_get? {a b : SortedMap α} (h : ∀ key, a.get? key = b.get? key) : a = b := by
  have := entries_eq_of_find? a.sorted b.sorted h
  cases a
  cases b
  simp_all

/-! ## Maps of lists -/

/-- An entry whose name is behind all others comes last. -/
theorem put_of_lt {key : String} {entries : List (String × α)} (h : ∀ e ∈ entries, e.1 < key)
    (value : α) : put key value entries = entries ++ [(key, value)] := by
  induction entries with
  | nil => rfl
  | cons entry rest ih =>
    obtain ⟨hfirst, hrest⟩ := List.forall_mem_cons.mp h
    have hne : entry.1 ≠ key := fun heq => String.lt_irrefl key (heq ▸ hfirst)
    rw [put, if_neg (String.lt_asymm hfirst), if_neg hne, ih hrest, List.cons_append]

theorem entries_foldl_insert (map : SortedMap α) {rest : List (String × α)}
    (h : (map.entries ++ rest).Pairwise fun a b => a.1 < b.1) :
    (rest.foldl (fun map (key, value) => map.insert key value) map).entries =
      map.entries ++ rest := by
  induction rest generalizing map with
  | nil => exact (List.append_nil _).symm
  | cons entry rest ih =>
    have hlast : ∀ e ∈ map.entries, e.1 < entry.1 := fun e he =>
      (List.pairwise_append.mp h).2.2 e he entry List.mem_cons_self
    have hinsert : (map.insert entry.1 entry.2).entries = map.entries ++ [entry] :=
      put_of_lt hlast entry.2
    rw [List.append_cons, ← hinsert] at h
    rw [List.foldl_cons, ih _ h, hinsert, ← List.append_cons]

/-- A map is the map of its entries. -/
theorem ofList_entries (map : SortedMap α) : ofList map.entries = map := by
  refine ext_get? fun key => ?_
  unfold get?
  rw [ofList, entries_foldl_insert empty map.sorted]
  rfl

theorem mem_of_mem_foldl_insert {map : SortedMap α} {rest : List (String × α)} {e : String × α}
    (h : e ∈ (rest.foldl (fun map (key, value) => map.insert key value) map).entries) :
    e ∈ map.entries ∨ e ∈ rest := by
  induction rest generalizing map with
  | nil => exact .inl h
  | cons entry rest ih =>
    rcases ih h with hinsert | hrest
    · rcases mem_put hinsert with rfl | hmap
      · exact .inr List.mem_cons_self
      · exact .inl hmap
    · exact .inr (List.mem_cons_of_mem _ hrest)

/-- The entries of a map come from the list that it was made of. -/
theorem mem_of_mem_ofList {entries : List (String × α)} {e : String × α}
    (h : e ∈ (ofList entries).entries) : e ∈ entries :=
  (mem_of_mem_foldl_insert h).resolve_left List.not_mem_nil

end SortedMap

end JoinPlan
