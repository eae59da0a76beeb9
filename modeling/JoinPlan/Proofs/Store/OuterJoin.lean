import Mathlib.Data.List.Forall2
import JoinPlan.Proofs.Store.Frame

/-!
# A join with its flattening is an outer join

A join leaves an array under its alias, and the flattening behind it takes the array apart
again. This file supplies what the two stages do together.

> `Join.Matches`: a value of the foreign field is equal to a value of the local field, where
> an array in the local field counts by its items.

The flattening finds under the alias what the join put there, whatever the document carried
before (`Flatten.apply_attach`). So the document is replaced by one copy for each partner, or
by one copy without the alias, and `Flatten.IsCopy` says what a copy is.
`runStages_join_flatten` reads the two stages as this outer join, with and without the copies
that have no partner.
-/

namespace JoinPlan

namespace Join

/-- The partner holds a value that the document refers to: as a value that is no array, or as an
item of an array. -/
def Matches (join : Join) (document partner : Value) : Prop :=
  ∃ found ∈ partner.lookup join.foreignField, ∃ value ∈ document.lookup join.localField,
    ((∀ items, value ≠ .array items) ∧ (found == value) = true) ∨
      ∃ items, value = .array items ∧ ∃ item ∈ items, (found == item) = true

/-- A value is opened when it is an array, and then once. -/
theorem exists_mem_opened_iff {value found : Value} :
    (∃ wanted ∈ opened value, (found == wanted) = true) ↔
      ((∀ items, value ≠ .array items) ∧ (found == value) = true) ∨
        ∃ items, value = .array items ∧ ∃ item ∈ items, (found == item) = true := by
  cases value <;> simp [opened]

theorem accepts_localValues_iff {join : Join} {document partner : Value} :
    join.accepts (join.localValues document) partner = true ↔ join.Matches document partner := by
  unfold accepts localValues Matches
  rw [List.any_eq_true]
  refine exists_congr fun found => and_congr_right fun _ => ?_
  rw [List.contains_iff_exists_mem_beq]
  simp only [← exists_mem_opened_iff]
  constructor
  · rintro ⟨wanted, hwanted, heq⟩
    obtain ⟨value, hvalue, hopened⟩ := List.mem_flatMap.mp hwanted
    exact ⟨value, hvalue, wanted, hopened, heq⟩
  · rintro ⟨value, hvalue, wanted, hopened, heq⟩
    exact ⟨wanted, List.mem_flatMap.mpr ⟨value, hvalue, hopened⟩, heq⟩

instance (join : Join) (document partner : Value) : Decidable (join.Matches document partner) :=
  decidable_of_iff _ accepts_localValues_iff

/-- The partners of a document are those of the other collection that match, in its order. -/
theorem partners_eq_filter (join : Join) (others : List Value) (document : Value) :
    join.partners others document = others.filter fun partner => join.Matches document partner := by
  unfold partners
  refine List.filter_congr fun partner _ => ?_
  rw [Bool.eq_iff_iff, decide_eq_true_iff]
  exact accepts_localValues_iff

end Join

namespace Flatten

variable {f : Flatten} {join : Join}

/-- A copy of a document: an item under the alias, or nothing there, a position in the index
field, and every other key as it was. -/
structure IsCopy (f : Flatten) (document : Value) (item : Option Value) (position copy : Value) :
    Prop where
  record : copy.IsRecord
  item : copy.get? f.asName = item
  position : ∀ field ∈ f.indexField, copy.get? field = some position
  frame : copy.AgreesOutside (f.asName :: f.indexField.toList) document

theorem get?_withPosition_of_mem {field : String} (h : field ∈ f.indexField) (position : Value)
    (members : Members) : (f.withPosition position members).get? field = some position := by
  unfold withPosition
  rw [Option.mem_def.mp h]
  exact Members.get?_insert_self members field position

/-- Members that agree with a document but for the alias make a copy of it, once they have
their position. -/
theorem isCopy_withPosition (hindex : f.asName ∉ f.indexField) {document : Value}
    {members : Members} (hmembers : members.Distinct)
    (hagrees : (Value.object members).AgreesOutside [f.asName] document) (position : Value) :
    f.IsCopy document (members.get? f.asName) position
      (.object (f.withPosition position members)) := by
  refine ⟨f.distinct_withPosition position hmembers, ?_, fun field hfield => ?_,
    fun key hkey => ?_⟩
  · refine f.get?_withPosition_of_notMem (fun hmem => ?_) position members
    exact hindex (Option.mem_toList.mp hmem)
  · exact get?_withPosition_of_mem hfield position members
  · have halias : key ∉ [f.asName] := by
      intro hmem
      exact hkey (List.mem_cons.mpr (.inl (List.mem_singleton.mp hmem)))
    have hposition := f.get?_withPosition_of_notMem (List.not_mem_of_not_mem_cons hkey) position
      members
    exact hposition.trans (hagrees key halias)

/-- What an outer join makes of a document: a copy for each partner, with its position among
them, or one copy without a partner. -/
inductive OuterCopies (f : Flatten) (document : Value) : List Value → List Value → Prop
  | alone {copy : Value} : f.IsCopy document none .null copy → OuterCopies f document [] [copy]
  | partnered {partners copies : List Value} : partners ≠ [] →
      List.Forall₂ (fun entry copy => f.IsCopy document (some entry.1) (.ofInt entry.2) copy)
        partners.zipIdx copies → OuterCopies f document partners copies

/-- Behind its join, a flattening that preserves makes the copies of an outer join. -/
theorem outerCopies_apply_attach (hname : f.asName = join.asName)
    (hindex : f.asName ∉ f.indexField) (hpreserve : f.preserve = true) (others : List Value)
    {document : Value} (hdocument : document.IsRecord) :
    f.OuterCopies document (join.partners others document)
      (f.apply (join.attach others document)) := by
  cases document with
  | object members =>
    rw [f.apply_attach hname]
    generalize join.partners others (.object members) = partners
    -- Without the alias, the members are those of the document, with or without one of its own.
    have hinserted : (Members.insert members join.asName (.array partners)).Distinct :=
      Members.distinct_insert hdocument join.asName _
    have hrest := Members.distinct_remove hinserted join.asName
    have hagrees : ∀ key, key ≠ join.asName →
        ((Members.insert members join.asName (.array partners)).remove join.asName).get? key =
          Members.get? members key := by
      intro key hkey
      rw [Members.get?_remove_of_ne hinserted hkey, Members.get?_insert_of_ne hkey]
    cases partners with
    | nil =>
      have hnone := Members.get?_remove_self hinserted join.asName
      simp only [if_true, withoutItems, hpreserve]
      refine .alone ?_
      rw [← hnone, ← hname]
      refine isCopy_withPosition hindex (hname ▸ hrest) (fun key hkey => ?_) .null
      rw [hname] at hkey ⊢
      exact hagrees key (List.ne_of_not_mem_cons hkey)
    | cons first partners =>
      simp only [List.cons_ne_nil, if_false]
      refine .partnered (List.cons_ne_nil _ _) (List.forall₂_map_right_iff.mpr ?_)
      refine List.forall₂_same.mpr fun entry _ => ?_
      obtain ⟨item, position⟩ := entry
      rw [← Members.get?_insert_self _ f.asName item]
      refine isCopy_withPosition hindex (Members.distinct_insert hrest f.asName item)
        (fun key hkey => ?_) (.ofInt position)
      have hne : key ≠ f.asName := List.ne_of_not_mem_cons hkey
      exact (Members.get?_insert_of_ne hne _ item).trans (hagrees key (hname ▸ hne))
  | _ => exact hdocument.elim

/-- Without preserving, the documents with partners keep their copies and the others have
none. -/
theorem apply_attach_of_dropping (hname : f.asName = join.asName) (others : List Value)
    {document : Value} (hdocument : document.isObject) :
    ({ f with preserve := false } : Flatten).apply (join.attach others document) =
      if join.partners others document = [] then [] else f.apply (join.attach others document) := by
  cases document with
  | object members =>
    rw [f.apply_attach hname, ({ f with preserve := false } : Flatten).apply_attach hname]
    by_cases hnone : join.partners others (.object members) = []
    · simp [hnone, withoutItems]
    · simp only [hnone, if_false]
      rfl
  | _ => cases hdocument

end Flatten

/-- Only the elements that are kept have images. -/
theorem flatMap_filter_eq_ite {α β : Type} {p : α → Bool} {f : α → List β} (xs : List α) :
    (xs.filter p).flatMap f = xs.flatMap fun x => if p x = true then f x else [] := by
  induction xs with
  | nil => rfl
  | cons x xs ih =>
    rw [List.flatMap_cons, ← ih]
    by_cases hx : p x = true
    · rw [List.filter_cons_of_pos hx, List.flatMap_cons, if_pos hx]
    · rw [List.filter_cons_of_neg hx, if_neg hx, List.nil_append]

/-- A join with a flattening of its alias is a left outer join. Every document is replaced, in
order, by a copy for each document of the other collection that matches it, in the order of
that collection and with its position, or by one copy without the alias where none matches;
all other keys keep their values. A flattening that does not preserve makes the same copies,
those without a partner apart. -/
theorem runStages_join_flatten [PatternLimit] (collection : String → List Value) (join : Join)
    (f : Flatten) (documents : List Value) (hname : f.asName = join.asName)
    (hindex : f.indexField ≠ some join.asName) (hpreserve : f.preserve = true)
    (hdocuments : ∀ d ∈ documents, d.isObject ∧ d.DistinctKeys) :
    ∃ copies : Value → List Value,
      runStages collection documents [.join join, .flatten f] = documents.flatMap copies ∧
      (∀ d ∈ documents, f.OuterCopies d
        ((collection join.source).filter fun partner => join.Matches d partner) (copies d)) ∧
      runStages collection documents [.join join, .flatten { f with preserve := false }] =
        (documents.filter fun d =>
          ∃ partner ∈ collection join.source, join.Matches d partner).flatMap copies := by
  have hstages : ∀ g : Flatten, runStages collection documents [.join join, .flatten g] =
      documents.flatMap fun d => g.apply (join.attach (collection join.source) d) := by
    intro g
    show (documents.map _).flatMap g.apply = _
    rw [List.flatMap_map]
  refine ⟨fun d => f.apply (join.attach (collection join.source) d), hstages f, ?_, ?_⟩
  · intro d hd
    obtain ⟨hobject, hkeys⟩ := hdocuments d hd
    rw [← join.partners_eq_filter]
    refine Flatten.outerCopies_apply_attach hname ?_ hpreserve _
      (Value.isRecord_of_distinctKeys hobject hkeys)
    rw [hname]
    exact hindex
  · rw [hstages, flatMap_filter_eq_ite]
    refine List.flatMap_congr fun d hd => ?_
    rw [Flatten.apply_attach_of_dropping hname _ (hdocuments d hd).1, Join.partners_eq_filter]
    by_cases hmatch : ∃ partner ∈ collection join.source, join.Matches d partner
    · rw [if_neg (by simpa using hmatch), if_pos (decide_eq_true hmatch)]
    · rw [if_pos (by simpa using hmatch), if_neg (by simpa using hmatch)]

/-- Orders with their owners, by identifier. -/
def ownerJoin : Join := ⟨"person", "owner.id", "id", "__owner"⟩

/-- The flattening of owners, with their positions. -/
def ownerFlatten : Flatten := (Flatten.preserving "__owner").withIndex "__owner_index"

/-- An order that names its owner in two references, one that names owners in an array of
identifiers with another array inside, and one that names none; all carry the alias. -/
def carryingOrders : List Value :=
  [.object [("__owner", .string "Bob"),
      ("owner", .array [.object [("id", .string "p1")], .object [("id", .string "p1")]])],
    .object [("__owner", .null),
      ("owner", .object [("id", .array [.string "p3", .string "p1", .array [.string "p2"]])])],
    .object [("__owner", .array []), ("id", .string "o3")]]

/-- Persons, two of them with one identifier. -/
def namesakes : List Value :=
  [.object [("id", .string "p1")], .object [("id", .string "p2")], .object [("id", .string "p1")]]

section

attribute [local instance] PatternLimit.unbounded

/-- The first order has a copy for each of the two persons of one identifier. So has the second,
whose array is opened once, and the third has one copy alone. -/
theorem runStages_join_flatten_namesakes :
    ownerFlatten.asName = ownerJoin.asName ∧ ownerFlatten.indexField ≠ some ownerJoin.asName ∧
      ownerFlatten.preserve = true ∧ (∀ d ∈ carryingOrders, d.isObject ∧ d.DistinctKeys) ∧
      (carryingOrders.map fun d =>
        (namesakes.filter fun partner => ownerJoin.Matches d partner).length) = [2, 2, 0] ∧
      ∃ copies : Value → List Value,
        runStages (fun _ => namesakes) carryingOrders [.join ownerJoin, .flatten ownerFlatten] =
          carryingOrders.flatMap copies ∧
        ∀ d ∈ carryingOrders, ownerFlatten.OuterCopies d
          (namesakes.filter fun partner => ownerJoin.Matches d partner) (copies d) := by
  have hindex : ownerFlatten.indexField ≠ some ownerJoin.asName := by decide
  have hdocuments : ∀ d ∈ carryingOrders, d.isObject ∧ d.DistinctKeys := by
    simp [carryingOrders, Value.DistinctKeys, Value.DistinctKeysMembers, Value.DistinctKeysItems,
      Value.isObject, Value.members?]
  obtain ⟨copies, hrun, hcopies, -⟩ := runStages_join_flatten (fun _ => namesakes) ownerJoin
    ownerFlatten carryingOrders rfl hindex rfl hdocuments
  exact ⟨rfl, hindex, rfl, hdocuments, by decide +kernel, copies, hrun, hcopies⟩

end

end JoinPlan
