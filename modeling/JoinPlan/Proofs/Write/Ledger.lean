import Mathlib.Algebra.BigOperators.Group.Multiset.Basic
import Mathlib.Tactic.Abel
import JoinPlan.Proofs.Write.Session

/-!
# The ledger of a write in progress

A create has its number before its document is in the store, so the documents of a type are
in two places: some are stored, and some are held by the creates that will insert them. This
file supplies what one move changes in these books, for every type.

> `Task.Move.contents`: what is stored is what was stored, with what the move inserted and
> without what it removed.
>
> `Task.Move.held`: what a move takes from a sequence is held, and what it inserts was held.
>
> `Task.Move.carriers`, `Task.Move.won`: a delete that removes a document takes away one of
> those with its identifier, and no move adds one that does not produce it.

Documents are compared by their numbers, for a patch changes the rest of a document but not
its number. All four are laws of a single move, by cases on the move, and they say nothing of
the other tasks.
-/

namespace JoinPlan

/-! ## Numbers -/

/-- The numbers of documents, in no order. -/
def numbersOf (documents : List Value) : Multiset (Option Value) := documents.map numberOf

@[simp] theorem numbersOf_nil : numbersOf [] = 0 := rfl

@[simp] theorem numbersOf_append (first second : List Value) :
    numbersOf (first ++ second) = numbersOf first + numbersOf second := by
  unfold numbersOf
  rw [List.map_append, ← Multiset.coe_add]

@[simp] theorem numbersOf_cons (document : Value) (rest : List Value) :
    numbersOf (document :: rest) = {numberOf document} + numbersOf rest := rfl

/-- The first numbers of a sequence. -/
def firstNumbers (count : Nat) : List (Option Value) :=
  (List.range' 1 count).map fun n : Nat => some (.ofInt n)

theorem firstNumbers_succ (count : Nat) :
    firstNumbers (count + 1) = firstNumbers count ++ [some (.ofInt (count + 1 : Nat))] := by
  unfold firstNumbers
  rw [List.range'_concat, List.map_append, Nat.one_mul, Nat.add_comm 1 count]
  rfl

theorem mem_firstNumbers {count : Nat} {number : Option Value} :
    number ∈ firstNumbers count ↔ ∃ n : Nat, number = some (.ofInt n) ∧ 0 < n ∧ n ≤ count := by
  unfold firstNumbers
  rw [List.mem_map]
  constructor
  · intro h
    obtain ⟨n, hn, rfl⟩ := h
    rw [List.mem_range'_1] at hn
    exact ⟨n, rfl, by omega, by omega⟩
  · intro h
    obtain ⟨n, rfl, hpos, hle⟩ := h
    refine ⟨n, ?_, rfl⟩
    rw [List.mem_range'_1]
    omega

theorem nodup_firstNumbers (count : Nat) : (firstNumbers count).Nodup := by
  refine List.Nodup.map ?_ List.nodup_range'
  intro n m hsame
  injection hsame with hvalue
  injection hvalue with hnumber
  injection hnumber with hint
  exact Int.ofNat.inj hint

theorem sequenceName_inj {a b : String} : sequenceName a = sequenceName b ↔ a = b := by
  show a ++ "_" ++ numberField = b ++ "_" ++ numberField ↔ a = b
  rw [String.append_left_inj, String.append_left_inj]

/-- Patches that do not mention the number keep it. -/
theorem numberOf_merged {changes : Members} (h : Members.get? changes numberField = none)
    (document : Value) : numberOf (Store.merged changes document) = numberOf document := by
  cases document with
  | object members =>
    exact Members.get?_insertAll_of_notMem (Members.notMem_of_get?_eq_none h) members
  | _ => rfl

/-! ## Where documents are -/

/-- The document that a script is about to insert into a collection. -/
def Script.held? (collection : String) (script : Script) : Option Value :=
  match script.skip with
  | .call (.insert type document) _ => if type = collection then some document else none
  | _ => none

/-- Whether a script is about to take a number of the type. -/
def Script.awaitsNumber (type : String) (script : Script) : Bool :=
  match script.skip with
  | .call (.advance sequence) _ => sequence = sequenceName type
  | _ => false

namespace Action

/-- The document that an action has put into a collection. -/
def inserted? (collection : String) : Action → Option Value
  | .call (.insert type document) (.ok _) => if type = collection then some document else none
  | _ => none

/-- The document that an action has taken out of a collection. -/
def removed? (collection : String) : Action → Option Value
  | .call (.remove type _ _) (.ok (some document)) =>
    if type = collection then some document else none
  | _ => none

/-- The action has taken a document with the identifier out of a collection. -/
def removes (type field id : String) : Action → Bool
  | .call (.remove collection name key) (.ok (some _)) =>
    collection = type ∧ name = field ∧ key = id
  | _ => false

/-- The action may put the identifier into a collection: it inserts a document with it, or
it patches a document to have it. -/
def produces (type field id : String) : Action → Bool
  | .call (.insert collection document) _ =>
    collection = type ∧ Store.identifies field (.string id) document = true
  | .call (.patch collection _ _ changes) _ =>
    collection = type ∧ ∃ change ∈ changes, change.1 = field ∧ (change.2 == .string id) = true
  | _ => false

section NoCall

variable {action : Action} (h : action.isCall = false)

include h

theorem inserted?_of_not_call (type : String) : action.inserted? type = none := by
  cases action with
  | call c answer => cases h
  | _ => rfl

theorem removed?_of_not_call (type : String) : action.removed? type = none := by
  cases action with
  | call c answer => cases h
  | _ => rfl

theorem removes_of_not_call (type field id : String) : action.removes type field id = false := by
  cases action with
  | call c answer => cases h
  | _ => rfl

end NoCall

end Action

/-- The task is a delete that has removed its document. -/
def Task.won (type field id : String) (task : Task) : Bool :=
  match task.write, task.rest.skip with
  | .delete collection key, .done (.ok _) =>
    collection = type ∧ task.writer.idField = field ∧ key = id
  | _, _ => false

/-! ## Laws of a move -/

namespace Task

variable {task : Task} {storage storage' : Storage} {action : Action} {rest : Script}

/-- What a move puts into a collection is in it, and what it takes out was. -/
theorem Move.contents (h : task.Move storage action storage' rest)
    (hkeeps : task.write.KeepsNumber) (type : String) :
    numbersOf (storage'.store.documents type) + numbersOf (action.removed? type).toList =
      numbersOf (storage.store.documents type) + numbersOf (action.inserted? type).toList := by
  cases h with
  | quiet hcall hskip =>
    rw [Action.removed?_of_not_call hcall, Action.inserted?_of_not_call hcall]
  | numbered hwrite hskip hrest hnumber => rfl
  | @inserted inserted payload document rest next result hwrite hskip hrest =>
    simp only [Action.removed?, Action.inserted?, Option.toList_none, numbersOf_nil, add_zero]
    by_cases htype : inserted = type
    · subst htype
      rw [if_pos rfl, Store.insert, Store.documents_withDocuments_self, numbersOf_append]
      rfl
    · rw [if_neg htype, Store.insert, Store.documents_withDocuments_of_ne (Ne.symm htype),
        Option.toList_none, numbersOf_nil, add_zero]
  | @patched patched id changes front back found rest next result hwrite hskip hfinds hrest =>
    simp only [Action.removed?, Action.inserted?, Option.toList_none, numbersOf_nil, add_zero]
    rw [hwrite] at hkeeps
    by_cases htype : patched = type
    · subst htype
      rw [Store.documents_withDocuments_self, hfinds.documents]
      simp only [numbersOf_append, numbersOf_cons, numberOf_merged hkeeps]
    · rw [Store.documents_withDocuments_of_ne (Ne.symm htype)]
  | unpatched hwrite hskip hrest => rfl
  | @removed removed id front back found rest next hwrite hskip hfinds hrest =>
    simp only [Action.removed?, Action.inserted?, Option.toList_none, numbersOf_nil, add_zero]
    by_cases htype : removed = type
    · subst htype
      rw [if_pos rfl, Store.documents_withDocuments_self, hfinds.documents]
      simp only [numbersOf_append, numbersOf_cons, Option.toList_some, numbersOf_nil]
      abel
    · rw [if_neg htype, Store.documents_withDocuments_of_ne (Ne.symm htype), Option.toList_none,
        numbersOf_nil, add_zero]
  | unremoved hwrite hskip hrest => rfl

/-- What a move takes from a sequence is held until it is inserted. -/
theorem Move.held (h : task.Move storage action storage' rest) (type : String) :
    numbersOf (rest.held? type).toList + numbersOf (action.inserted? type).toList +
        firstNumbers (storage.counters.current (sequenceName type)) =
      numbersOf (task.rest.held? type).toList +
        firstNumbers (storage'.counters.current (sequenceName type)) := by
  unfold Script.held?
  cases h with
  | quiet hcall hskip =>
    rw [hskip, Action.inserted?_of_not_call hcall, Option.toList_none, numbersOf_nil, add_zero]
  | @numbered numbered payload document rest next after hwrite hskip hrest hnumber =>
    rw [hskip, hrest]
    simp only [Action.inserted?, Option.toList_none, numbersOf_nil, add_zero, zero_add]
    -- The new number of the sequence is the number of the document that is held from now on.
    by_cases htype : numbered = type
    · subst htype
      rw [if_pos rfl, Counters.current_advance_self, firstNumbers_succ, ← Multiset.coe_add]
      simp only [Option.toList_some, numbersOf_cons, numbersOf_nil, hnumber, add_zero]
      exact add_comm _ _
    · have hother : sequenceName type ≠ sequenceName numbered :=
        fun heq => htype (sequenceName_inj.mp heq).symm
      rw [if_neg htype, Counters.current_advance_of_ne hother, Option.toList_none, numbersOf_nil,
        zero_add]
  | inserted hwrite hskip hrest =>
    rw [hskip, hrest]
    simp only [Action.inserted?, Option.toList_none, numbersOf_nil, zero_add]
  | patched hwrite hskip hfinds hrest =>
    rw [hskip, hrest]
    rfl
  | unpatched hwrite hskip hrest =>
    rw [hskip, hrest]
    rfl
  | removed hwrite hskip hfinds hrest =>
    rw [hskip, hrest]
    rfl
  | unremoved hwrite hskip hrest =>
    rw [hskip, hrest]
    rfl

/-- A move that takes a number no longer awaits one. -/
theorem Move.awaiting (h : task.Move storage action storage' rest) (type : String) :
    storage'.counters.current (sequenceName type) + (rest.awaitsNumber type).toNat =
      storage.counters.current (sequenceName type) + (task.rest.awaitsNumber type).toNat := by
  unfold Script.awaitsNumber
  cases h with
  | quiet hcall hskip => rw [hskip]
  | @numbered numbered payload document rest next after hwrite hskip hrest hnumber =>
    rw [hskip, hrest]
    show _ + false.toNat = _ + (decide (sequenceName numbered = sequenceName type)).toNat
    by_cases htype : numbered = type
    · subst htype
      rw [Counters.current_advance_self, decide_eq_true rfl]
      rfl
    · have hother : sequenceName type ≠ sequenceName numbered :=
        fun heq => htype (sequenceName_inj.mp heq).symm
      rw [Counters.current_advance_of_ne hother, decide_eq_false hother.symm]
  | inserted hwrite hskip hrest => rw [hskip, hrest]
  | patched hwrite hskip hfinds hrest => rw [hskip, hrest]
  | unpatched hwrite hskip hrest => rw [hskip, hrest]
  | removed hwrite hskip hfinds hrest => rw [hskip, hrest]
  | unremoved hwrite hskip hrest => rw [hskip, hrest]

/-- A move that produces no document with the identifier leaves as many as there were, and a
removal leaves one less. -/
theorem Move.carriers (h : task.Move storage action storage' rest) {type field id : String}
    (hproduces : action.produces type field id = false) :
    storage'.store.carriers type field id + (action.removes type field id).toNat ≤
      storage.store.carriers type field id := by
  cases h with
  | quiet hcall hskip =>
    rw [Action.removes_of_not_call hcall]
    exact le_rfl
  | numbered hwrite hskip hrest hnumber => exact le_rfl
  | @inserted inserted payload document rest next result hwrite hskip hrest =>
    by_cases htype : inserted = type
    · subst htype
      exact Store.carriers_inserted fun hhere => of_decide_eq_false hproduces ⟨rfl, hhere⟩
    · exact (Store.carriers_withDocuments_of_ne (Ne.symm htype)).le
  | @patched patched key changes front back found rest next result hwrite hskip hfinds hrest =>
    by_cases htype : patched = type
    · subst htype
      exact Store.carriers_patched hfinds fun hset => of_decide_eq_false hproduces ⟨rfl, hset⟩
    · exact (Store.carriers_withDocuments_of_ne (Ne.symm htype)).le
  | unpatched hwrite hskip hrest => exact le_rfl
  | @removed removed key front back found rest next hwrite hskip hfinds hrest =>
    by_cases htype : removed = type
    · subst htype
      -- The document that goes has the identifier that the delete looked for.
      have htaken : Action.removes removed field id
          (.call (.remove removed task.writer.idField key) (.ok (some found))) ≤
          Store.identifies field (.string id) found := by
        refine Bool.le_iff_imp.mpr fun hremoves => ?_
        obtain ⟨-, hfield, hkey⟩ := of_decide_eq_true hremoves
        exact Store.identifies_iff.mpr (hfield ▸ hkey ▸ hfinds.here)
      rw [← Store.carriers_removed hfinds]
      exact Nat.add_le_add_left (Bool.toNat_le_toNat htaken) _
    · have hremoves : Action.removes type field id
          (.call (.remove removed task.writer.idField key) (.ok (some found))) = false :=
        decide_eq_false fun hall => htype hall.1
      rw [hremoves]
      exact (Store.carriers_withDocuments_of_ne (Ne.symm htype)).le
  | unremoved hwrite hskip hrest => exact le_rfl

/-- A delete is won by the move that removes the document. -/
theorem Move.won (h : task.Move storage action storage' rest) (type field id : String) :
    (Task.won type field id { task with rest }).toNat =
      (task.won type field id).toNat + (action.removes type field id).toNat := by
  unfold Task.won
  cases h with
  | quiet hcall hskip =>
    rw [Action.removes_of_not_call hcall, hskip]
    rfl
  | numbered hwrite hskip hrest hnumber =>
    rw [hwrite]
    rfl
  | inserted hwrite hskip hrest =>
    rw [hwrite]
    rfl
  | patched hwrite hskip hfinds hrest =>
    rw [hwrite]
    rfl
  | unpatched hwrite hskip hrest =>
    rw [hwrite]
    rfl
  | removed hwrite hskip hfinds hrest =>
    rw [hwrite, hskip, hrest]
    exact (Nat.zero_add _).symm
  | unremoved hwrite hskip hrest =>
    rw [hwrite, hskip, hrest]
    rfl

end Task

end JoinPlan
