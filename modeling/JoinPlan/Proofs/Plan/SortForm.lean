import JoinPlan.Proofs.Json.Nested
import JoinPlan.Proofs.Json.Record
import JoinPlan.Proofs.Plan.Layout
import JoinPlan.Proofs.Store.Stability

/-!
# Sorting by a query document

A list of sort keys may name a path twice, and a query document cannot: there the path keeps
its first place and takes its last direction. This file supplies when that makes no
difference.

> `SortKey.Settled`: the first and the last key of a path have one direction.

Documents compare by the first path that tells them apart, in the direction of its first key
(`compareAll_eq_firstPath`). The query document keeps the order of the paths
(`exists_ofDocument?_toDocument`), so all that it can change is the direction of a path. And
where it does, there are two documents that only this path tells apart (`tellsApart_sample`).
-/

namespace JoinPlan

/-- The direction that a sign stands for. -/
def Direction.ofSign? (sign : Int) : Option Direction :=
  if sign = 1 then some .ascending else if sign = -1 then some .descending else none

namespace SortKey

/-! ## Reading a query document back -/

/-- The entry of a query document that a sort key becomes. -/
def entry (key : SortKey) : String × Value := (key.path, .ofInt key.direction.sign)

/-- The sort key that an entry of a query document stands for. -/
def ofEntry? : String × Value → Option SortKey
  | (path, .number (.int sign)) => (Direction.ofSign? sign).map (⟨path, ·⟩)
  | _ => none

/-- The sort keys of a query document, entry by entry. -/
def ofDocument? : Value → Option (List SortKey)
  | .object [("$sort", .object entries)] => entries.mapM ofEntry?
  | _ => none

theorem ofEntry?_entry (key : SortKey) : ofEntry? key.entry = some key := by
  obtain ⟨path, direction⟩ := key
  cases direction <;> rfl

theorem mapM_ofEntry?_entries (keys : List SortKey) :
    (keys.map entry).mapM ofEntry? = some keys := by
  induction keys with
  | nil => rfl
  | cons key rest ih => rw [List.map_cons, List.mapM_cons, ofEntry?_entry, ih]; rfl

theorem exists_keys {entries : Members} (h : ∀ e ∈ entries, ∃ key : SortKey, key.entry = e) :
    ∃ keys : List SortKey, keys.map entry = entries := by
  induction entries with
  | nil => exact ⟨[], rfl⟩
  | cons e rest ih =>
    obtain ⟨key, rfl⟩ := h e List.mem_cons_self
    obtain ⟨keys, rfl⟩ := ih fun e he => h e (List.mem_cons_of_mem _ he)
    exact ⟨key :: keys, rfl⟩

/-- The direction of the first key of a path. -/
def directionAt? (keys : List SortKey) (path : String) : Option Direction :=
  (keys.find? (·.path = path)).map (·.direction)

theorem directionAt?_cons (key : SortKey) (rest : List SortKey) (path : String) :
    directionAt? (key :: rest) path =
      if key.path = path then some key.direction else directionAt? rest path := by
  unfold directionAt?
  rw [List.find?_cons]
  by_cases h : key.path = path <;> simp [h]

theorem get?_entries (keys : List SortKey) (path : String) :
    Members.get? (keys.map entry) path =
      (directionAt? keys path).map fun direction => .ofInt direction.sign := by
  induction keys with
  | nil => rfl
  | cons key rest ih =>
    rw [List.map_cons, directionAt?_cons]
    show (if key.path = path then some _ else Members.get? (rest.map entry) path) = _
    rw [ih]
    split <;> rfl

theorem ofInt_sign_injective :
    Function.Injective fun direction : Direction => Value.ofInt direction.sign := by
  intro d e h
  cases d <;> cases e <;> first | rfl | cases h

/-- A query document keeps of every path the first place and the last direction. -/
theorem exists_ofDocument?_toDocument (keys : List SortKey) :
    ∃ read, ofDocument? (Stage.sort keys).toDocument = some read ∧
      read.map (·.path) = (keys.map (·.path)).eraseDups ∧
      ∀ path, directionAt? read path = directionAt? keys.reverse path := by
  obtain ⟨read, hread⟩ : ∃ read : List SortKey,
      read.map entry = Members.ofList (keys.map entry) := by
    refine exists_keys fun e he => ?_
    obtain ⟨key, -, hkey⟩ := List.mem_map.mp (Members.mem_of_mem_ofList he)
    exact ⟨key, hkey⟩
  refine ⟨read, ?_, ?_, fun path => ?_⟩
  · show (Members.ofList (keys.map entry)).mapM ofEntry? = some read
    rw [← hread, mapM_ofEntry?_entries]
  · have hnames := Members.names_ofList (keys.map entry)
    rw [← hread, List.map_map, List.map_map] at hnames
    exact hnames
  · have hget := Members.get?_ofList (keys.map entry) path
    rw [← hread, ← List.map_reverse, get?_entries, get?_entries] at hget
    exact Option.map_injective ofInt_sign_injective hget

/-! ## The first path that counts -/

/-- The first key whose path has a property is the first key of its path. -/
theorem directionAt?_of_find? {keys : List SortKey} {key : SortKey} {p : String → Bool}
    (h : keys.find? (fun key => p key.path) = some key) :
    directionAt? keys key.path = some key.direction := by
  obtain ⟨hkey, before, after, rfl, hbefore⟩ := List.find?_eq_some_iff_append.mp h
  have hfirst : (before ++ key :: after).find? (·.path = key.path) = some key := by
    refine List.find?_eq_some_iff_append.mpr ⟨decide_eq_true rfl, before, after, rfl, ?_⟩
    intro earlier hearlier
    have hearlier' := hbefore earlier hearlier
    have hpath : earlier.path ≠ key.path := by
      intro heq
      rw [heq, hkey] at hearlier'
      cases hearlier'
    rw [decide_eq_false hpath]
    rfl
  rw [directionAt?, hfirst, Option.map_some]

/-- Documents compare at the first path that tells them apart, in the direction of its first
key. -/
theorem compareAll_eq_firstPath (keys : List SortKey) (a b : Value) :
    compareAll keys a b =
      (((keys.map (·.path)).find? (tellsApart · a b)).bind fun path =>
        (directionAt? keys path).map fun direction =>
          SortKey.compare ⟨path, direction⟩ a b).getD .eq := by
  have hpath : (keys.map (·.path)).find? (tellsApart · a b) =
      (keys.find? fun key => tellsApart key.path a b).map (·.path) := List.find?_map
  rw [compareAll_eq_first, hpath]
  cases hfirst : keys.find? fun key => tellsApart key.path a b with
  | none => rfl
  | some key =>
    have hdirection : directionAt? keys key.path = some key.direction :=
      directionAt?_of_find? (p := (tellsApart · a b)) hfirst
    rw [Option.map_some, Option.map_some, Option.bind_some, hdirection]
    rfl

/-- What is found first is found among first occurrences. -/
theorem find?_eraseDups (paths : List String) (p : String → Bool) :
    paths.eraseDups.find? p = paths.find? p := by
  induction paths using List.reverseRecOn with
  | nil => rfl
  | append_singleton front last ih =>
    rw [List.eraseDups_append, List.find?_append, List.find?_append, ih]
    by_cases hlast : last ∈ front
    · cases hfront : front.find? p with
      | some path => rfl
      | none =>
        have hp : p last = false := by simpa using List.find?_eq_none.mp hfront last hlast
        simp [List.removeAll, hlast, hp]
    · simp [List.removeAll, hlast, List.eraseDups_cons]

/-! ## Documents that one path tells apart -/

/-- The document with a truth value at the end of a path. -/
def sample (path : String) (truth : Bool) : Value :=
  .nested (Value.pathNames path) (.bool truth)

theorem lookup_sample (path : String) (truth : Bool) :
    (sample path truth).lookup path = [.bool truth] :=
  Value.walk_nested _ _

/-- Of two samples for a path only this path finds different ones. -/
theorem tellsApart_sample (path other : String) :
    tellsApart other (sample path false) (sample path true) = decide (other = path) := by
  unfold tellsApart
  by_cases hother : other = path
  · rw [decide_eq_true hother, hother, lookup_sample, lookup_sample]
    rfl
  · have hnames : Value.pathNames other ≠ Value.pathNames path := fun h =>
      hother (Text.split_inj h)
    rw [decide_eq_false hother]
    unfold sample Value.lookup
    rcases Value.walk_nested_of_ne hnames (a := .bool false) (b := .bool true) (fun _ => rfl)
      (fun _ => rfl) with ⟨ha, hb⟩ | ⟨members, members', ha, hb⟩
    · rw [ha, hb]
      rfl
    · rw [ha, hb]
      rfl

/-- Keys compare the samples for a path in the direction of its first key. -/
theorem compareAll_sample (keys : List SortKey) (path : String) :
    compareAll keys (sample path false) (sample path true) =
      match directionAt? keys path with
      | none => .eq
      | some .ascending => .lt
      | some .descending => .gt := by
  induction keys with
  | nil => rfl
  | cons key rest ih =>
    rw [compareAll, directionAt?_cons]
    by_cases hpath : key.path = path
    · subst hpath
      rw [if_pos rfl]
      unfold SortKey.compare
      rw [lookup_sample, lookup_sample]
      cases key.direction <;> rfl
    · have htie : key.compare (sample path false) (sample path true) = .eq := by
        rw [compare_eq_eq_iff, tellsApart_sample, decide_eq_false hpath]
      rw [htie, if_neg hpath, ih, Ordering.eq_then]

/-- Keys with the same order of paths compare alike when every path has one direction. -/
theorem compareAll_congr_iff {keys others : List SortKey}
    (hpaths : others.map (·.path) = (keys.map (·.path)).eraseDups) :
    (∀ a b, compareAll others a b = compareAll keys a b) ↔
      ∀ path, directionAt? others path = directionAt? keys path := by
  constructor
  · intro h path
    have hsample := h (sample path false) (sample path true)
    rw [compareAll_sample, compareAll_sample] at hsample
    -- Which of the three ways the samples compare tells the direction.
    generalize directionAt? others path = direction at hsample ⊢
    generalize directionAt? keys path = direction' at hsample ⊢
    rcases direction with _ | _ | _ <;> rcases direction' with _ | _ | _ <;>
      first | rfl | cases hsample
  · intro h a b
    rw [compareAll_eq_firstPath, compareAll_eq_firstPath, hpaths, find?_eraseDups]
    simp only [h]

/-- The first and the last key of a path have one direction. -/
def Settled (keys : List SortKey) : Prop :=
  ∀ path, directionAt? keys path = directionAt? keys.reverse path

end SortKey

/-! ## Sorting alike -/

theorem sortDocuments_pair (keys : List SortKey) (a b : Value) :
    sortDocuments keys [a, b] =
      if (SortKey.compareAll keys a b).isLE then [a, b] else [b, a] := by
  simp [sortDocuments, List.mergeSort, List.merge]

/-- Keys sort alike when they compare alike. -/
theorem sortDocuments_congr_iff {keys others : List SortKey} :
    (∀ documents, sortDocuments others documents = sortDocuments keys documents) ↔
      ∀ a b, SortKey.compareAll others a b = SortKey.compareAll keys a b := by
  constructor
  · intro h
    have hle : ∀ a b, a ≠ b →
        (SortKey.compareAll others a b).isLE = (SortKey.compareAll keys a b).isLE := by
      intro a b hab
      have hpair := h [a, b]
      rw [sortDocuments_pair, sortDocuments_pair] at hpair
      cases hothers : (SortKey.compareAll others a b).isLE <;>
        cases hkeys : (SortKey.compareAll keys a b).isLE <;>
          simp_all
    intro a b
    by_cases hab : a = b
    · rw [hab]
      exact Std.ReflCmp.compare_self.trans Std.ReflCmp.compare_self.symm
    · -- A pair in both orders shows which way it compares.
      have hswap : ∀ ks, SortKey.compareAll ks b a = (SortKey.compareAll ks a b).swap :=
        fun ks => Std.OrientedCmp.eq_swap
      have hback := hle b a (Ne.symm hab)
      have hforth := hle a b hab
      rw [hswap others, hswap keys] at hback
      revert hforth hback
      cases SortKey.compareAll others a b <;> cases SortKey.compareAll keys a b <;> decide
  · intro h documents
    unfold sortDocuments
    simp only [h]

/-- A sort that goes through its query document. The document can always be read back as sort
keys, and sorting by these is sorting by the keys exactly when the keys do not ask for one path
in two directions, first in one and last in the other. -/
theorem SortKey.sort_readBack_iff_settled (keys : List SortKey) :
    ∃ read, ofDocument? (Stage.sort keys).toDocument = some read ∧
      ((∀ documents, sortDocuments read documents = sortDocuments keys documents) ↔
        Settled keys) := by
  obtain ⟨read, hread, hpaths, hlast⟩ := exists_ofDocument?_toDocument keys
  refine ⟨read, hread, ?_⟩
  rw [sortDocuments_congr_iff, compareAll_congr_iff hpaths]
  unfold Settled
  simp only [hlast]
  exact forall_congr' fun path => eq_comm

/-- The request for orders by their identifiers, once upwards and once downwards. -/
def twoWayRequest : SearchRequest := { SearchRequest.ofType "order" with sort := ["id", "<id"] }

/-- Where a request names a field twice, the plan sorts upwards and its query document
downwards. -/
theorem SortKey.exists_sort_readBack_ne_twoWayRequest :
    ∃ plan read, (Plan.ofRequest orders .standard twoWayRequest).result = .ok plan ∧
      plan.sort = [⟨"id", .ascending⟩, ⟨"id", .descending⟩] ∧
      ofDocument? (Stage.sort plan.sort).toDocument = some read ∧
      sortDocuments plan.sort
          [.object [("id", .string "o1")], .object [("id", .string "o2")]] =
        [.object [("id", .string "o1")], .object [("id", .string "o2")]] ∧
      sortDocuments read [.object [("id", .string "o1")], .object [("id", .string "o2")]] =
        [.object [("id", .string "o2")], .object [("id", .string "o1")]] := by
  obtain ⟨plan, haccepted, hcheck⟩ := Plan.exists_of_check
    (Plan.ofRequest orders .standard twoWayRequest).result
    (fun plan => plan.sort = [⟨"id", .ascending⟩, ⟨"id", .descending⟩]) (by decide +kernel)
  have hsort := of_decide_eq_true hcheck
  refine ⟨plan, [⟨"id", .descending⟩], haccepted, hsort, ?_, ?_, ?_⟩
  · rw [hsort]
    decide
  · rw [hsort, sortDocuments_pair, if_pos (by decide +kernel)]
  · rw [sortDocuments_pair, if_neg (by decide +kernel)]

end JoinPlan
