import JoinPlan.Proofs.Json.Record
import JoinPlan.Store.Basic

/-!
# Changes of one document

Documents are patched and removed by an identifier, and the first document that has it is
meant. This file supplies what a change does to the list of documents.

> `Store.Finds`: the documents of a collection are some that have not the identifier, one
> that has it, and the rest.

A collection is found so or lacks the identifier (`finds_or_lacks`). In the first case a
change happens in place, between the same documents; in the second there is none. So a change
that does not set an identifier leaves at most as many documents with it as there were
(`carriers_patched`), and a removal leaves one less (`carriers_removed`).
-/

namespace JoinPlan

namespace Store

/-- A store looks for the identifier itself. -/
theorem identifies_iff {field id : String} {document : Value} :
    identifies field (.string id) document = true ↔ document.get? field = some (.string id) := by
  unfold identifies
  constructor
  · intro h
    obtain ⟨value, hvalue, hsame⟩ := (Option.any_eq_true _ _).mp h
    cases value with
    | string text =>
      obtain rfl : text = id := beq_iff_eq.mp hsame
      exact hvalue
    | _ => cases hsame
  · intro h
    rw [h]
    exact beq_self_eq_true id

theorem identifies_eq_false_iff {field id : String} {document : Value} :
    identifies field (.string id) document = false ↔ document.get? field ≠ some (.string id) := by
  rw [← Bool.not_eq_true, identifies_iff]

/-- The first document with the identifier, between those before and those behind it. -/
structure Finds (store : Store) (collection field id : String) (front : List Value)
    (found : Value) (back : List Value) : Prop where
  documents : store.documents collection = front ++ found :: back
  before : ∀ d ∈ front, d.get? field ≠ some (.string id)
  here : found.get? field = some (.string id)

/-- No document has the identifier. -/
def Lacks (store : Store) (collection field id : String) : Prop :=
  ∀ d ∈ store.documents collection, d.get? field ≠ some (.string id)

theorem splitFirst?_eq_some_iff {p : Value → Bool} {documents front back : List Value}
    {found : Value} : splitFirst? p documents = some (front, found, back) ↔
      documents = front ++ found :: back ∧ (∀ d ∈ front, p d = false) ∧ p found = true := by
  constructor
  · intro h
    induction documents generalizing front with
    | nil => cases h
    | cons document rest ih =>
      rw [splitFirst?] at h
      by_cases hp : p document = true
      · rw [if_pos hp] at h
        obtain ⟨rfl, rfl, rfl⟩ := h
        exact ⟨rfl, by simp, hp⟩
      · rw [if_neg hp] at h
        obtain ⟨⟨front', found', back'⟩, hrest, heq⟩ := Option.map_eq_some_iff.mp h
        obtain ⟨rfl, rfl, rfl⟩ := heq
        obtain ⟨hdocuments, hbefore, hhere⟩ := ih hrest
        refine ⟨by rw [hdocuments, List.cons_append], ?_, hhere⟩
        exact List.forall_mem_cons.mpr ⟨Bool.eq_false_iff.mpr hp, hbefore⟩
  · intro h
    obtain ⟨rfl, hbefore, hhere⟩ := h
    induction front with
    | nil => rw [List.nil_append, splitFirst?, if_pos hhere]
    | cons document rest ih =>
      obtain ⟨hdocument, hrest⟩ := List.forall_mem_cons.mp hbefore
      rw [List.cons_append, splitFirst?, if_neg (Bool.eq_false_iff.mp hdocument), ih hrest]
      rfl

theorem splitFirst?_eq_none_iff {p : Value → Bool} {documents : List Value} :
    splitFirst? p documents = none ↔ ∀ d ∈ documents, p d = false := by
  induction documents with
  | nil => simp [splitFirst?]
  | cons document rest ih =>
    rw [splitFirst?, List.forall_mem_cons]
    by_cases hp : p document = true
    · simp [hp]
    · simp [hp, ih]

section Changes

variable {store : Store} {collection field id : String} {front back : List Value} {found : Value}

theorem finds_or_lacks (store : Store) (collection field id : String) :
    (∃ front found back, store.Finds collection field id front found back) ∨
      store.Lacks collection field id := by
  cases hsplit : splitFirst? (identifies field (.string id)) (store.documents collection) with
  | none =>
    exact .inr fun d hd => identifies_eq_false_iff.mp (splitFirst?_eq_none_iff.mp hsplit d hd)
  | some split =>
    obtain ⟨front, found, back⟩ := split
    obtain ⟨hdocuments, hbefore, hhere⟩ := splitFirst?_eq_some_iff.mp hsplit
    exact .inl ⟨front, found, back, hdocuments,
      fun d hd => identifies_eq_false_iff.mp (hbefore d hd), identifies_iff.mp hhere⟩

theorem Finds.splitFirst?_eq (h : store.Finds collection field id front found back) :
    splitFirst? (identifies field (.string id)) (store.documents collection) =
      some (front, found, back) :=
  splitFirst?_eq_some_iff.mpr
    ⟨h.documents, fun d hd => identifies_eq_false_iff.mpr (h.before d hd),
      identifies_iff.mpr h.here⟩

theorem Lacks.splitFirst?_eq (h : store.Lacks collection field id) :
    splitFirst? (identifies field (.string id)) (store.documents collection) = none :=
  splitFirst?_eq_none_iff.mpr fun d hd => identifies_eq_false_iff.mpr (h d hd)

/-- The first document with the identifier is found in one way. -/
theorem Finds.unique {front' back' : List Value} {found' : Value}
    (h : store.Finds collection field id front found back)
    (h' : store.Finds collection field id front' found' back') :
    front' = front ∧ found' = found ∧ back' = back := by
  have hsame := h'.splitFirst?_eq.symm.trans h.splitFirst?_eq
  simpa using hsame

theorem patch_of_finds (h : store.Finds collection field id front found back)
    (changes : Members) :
    store.patch collection field (.string id) changes =
      some (merged changes found,
        store.withDocuments collection (front ++ merged changes found :: back)) := by
  rw [patch, h.splitFirst?_eq]
  rfl

theorem remove_of_finds (h : store.Finds collection field id front found back) :
    store.remove collection field (.string id) =
      some (found, store.withDocuments collection (front ++ back)) := by
  rw [remove, h.splitFirst?_eq]
  rfl

theorem patch_of_lacks (h : store.Lacks collection field id) (changes : Members) :
    store.patch collection field (.string id) changes = none := by
  rw [patch, h.splitFirst?_eq]
  rfl

theorem remove_of_lacks (h : store.Lacks collection field id) :
    store.remove collection field (.string id) = none := by
  rw [remove, h.splitFirst?_eq]
  rfl

end Changes

/-! ## How many documents have an identifier -/

/-- How many documents of a collection have the identifier. -/
def carriers (store : Store) (collection field id : String) : Nat :=
  (store.documents collection).countP (identifies field (.string id))

/-- A patched document has the identifier from the patch, or had it before. -/
theorem identifies_merged {field : String} {id document : Value} {changes : Members}
    (h : identifies field id (merged changes document) = true) :
    (∃ change ∈ changes, change.1 = field ∧ (change.2 == id) = true) ∨
      identifies field id document = true := by
  cases document with
  | object members =>
    obtain ⟨value, hvalue, hsame⟩ := (Option.any_eq_true _ _).mp h
    rcases Members.mem_or_get?_of_get?_insertAll hvalue with hmem | hbefore
    · exact .inl ⟨_, hmem, rfl, hsame⟩
    · exact .inr ((Option.any_eq_true _ _).mpr ⟨value, hbefore, hsame⟩)
  | _ => exact .inr h

section Carriers

variable {store : Store} {type collection field id name key : String}
  {documents front back : List Value} {document found : Value} {changes : Members}

theorem carriers_withDocuments_of_ne (h : type ≠ collection) :
    (store.withDocuments collection documents).carriers type field id =
      store.carriers type field id := by
  unfold carriers
  rw [documents_withDocuments_of_ne h]

/-- A new document without the identifier adds none. -/
theorem carriers_inserted (h : ¬identifies field (.string id) document = true) :
    (store.insert type document).carriers type field id ≤ store.carriers type field id := by
  unfold carriers
  rw [insert, documents_withDocuments_self, List.countP_append, List.countP_singleton, if_neg h]
  exact Nat.le_refl _

/-- A patch that does not set the identifier adds none. -/
theorem carriers_patched (hfinds : store.Finds type name key front found back)
    (h : ¬∃ change ∈ changes, change.1 = field ∧ (change.2 == .string id) = true) :
    (store.withDocuments type (front ++ merged changes found :: back)).carriers type field id ≤
      store.carriers type field id := by
  unfold carriers
  rw [documents_withDocuments_self, hfinds.documents, List.countP_append, List.countP_append,
    List.countP_cons, List.countP_cons]
  by_cases hmerged : identifies field (.string id) (merged changes found) = true
  · refine Nat.le_of_eq ?_
    rw [if_pos hmerged, if_pos ((identifies_merged hmerged).resolve_left h)]
  · rw [if_neg hmerged]
    omega

/-- A removal takes out the document that it finds. -/
theorem carriers_removed (hfinds : store.Finds type name key front found back) :
    (store.withDocuments type (front ++ back)).carriers type field id +
        (identifies field (.string id) found).toNat = store.carriers type field id := by
  unfold carriers
  rw [documents_withDocuments_self, hfinds.documents, List.countP_append, List.countP_append,
    List.countP_cons]
  cases identifies field (.string id) found with
  | true => exact Nat.add_assoc _ _ _
  | false => rfl

end Carriers

end Store

end JoinPlan
