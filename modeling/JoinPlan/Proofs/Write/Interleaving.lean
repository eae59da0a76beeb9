import JoinPlan.Proofs.Write.Ledger

/-!
# Writes that interleave

Any number of creates, updates and deletes are in progress over one storage that starts empty,
and they take their actions in any order. This file supplies what holds after each action.

> `Session.Consistent`: the numbers of stored and of held documents are pairwise different,
> positive and at most the last number of their type, and what was inserted into a collection
> is there, but for what was removed.
>
> Of deletes by an identifier that one document has, at most one removes it, and the others
> find none.

The laws of a move are summed over the tasks (`Step.contents`, `Step.held`, `Step.awaiting`,
`Step.carriers`) and then over the actions of a run. On empty storage the sum is
`Run.ledger`: stored, held and removed documents together have the first numbers of the
sequence, each once. That the deletes do not share a document is the last law: documents with
the identifier and deletes that removed one are together never more than before.

No update may set the number of a document, which `Write.KeepsNumber` says.
-/

namespace JoinPlan

/-! ## Where tasks start -/

/-- The write creates a document of the type. -/
def Write.creates (type : String) : Write → Bool
  | .create collection _ => collection = type
  | _ => false

/-- A guarded write holds what its calls hold, or it was refused and holds nothing. -/
theorem Writer.held?_guarded {w : Writer} {event : WriteEvent} {calls : Script} {type : String}
    (h : calls.held? type = none) : (w.guarded event calls).held? type = none := by
  unfold Script.held? at h ⊢
  rcases w.skip_guarded event calls with ⟨-, hskip⟩ | ⟨-, result, hskip⟩
  · rw [hskip]
    exact h
  · rw [hskip]

namespace Task

variable {task : Task}

/-- A task that has not begun holds no document. -/
theorem Fresh.held?_eq_none (h : task.Fresh) (type : String) : task.rest.held? type = none := by
  obtain ⟨elapsed, hrest⟩ := h
  rw [hrest]
  cases task.write with
  | create type' payload =>
    cases payload with
    | object members => exact Writer.held?_guarded rfl
    | _ => rfl
  | update type' id payload =>
    cases payload with
    | object changes => exact Writer.held?_guarded rfl
    | _ => rfl
  | delete type' id => exact Writer.held?_guarded rfl

/-- Only creates of the type take its numbers. -/
theorem Sound.creates (h : task.Sound) {type : String}
    (hawaits : task.rest.awaitsNumber type = true) : task.write.creates type = true := by
  obtain ⟨w, write, rest⟩ := task
  unfold Sound at h
  unfold Script.awaitsNumber at hawaits
  simp only at h hawaits ⊢
  generalize rest.skip = script at h hawaits
  cases h with
  | numbering hnext =>
    exact decide_eq_true (sequenceName_inj.mp (of_decide_eq_true hawaits))
  | inserting hnext => cases hawaits
  | patching hnext => cases hawaits
  | removing hnone hsome => cases hawaits
  | ended hreports => cases hawaits

/-- A delete that its interceptors agree to has removed its document or has found none. -/
theorem Sound.won_or_notFound (h : task.Sound) {type field id : String}
    {result : Except WriteError Value} (hwrite : task.write = .delete type id)
    (hfield : task.writer.idField = field)
    (hagree : task.writer.Agrees ⟨.delete, type, some id, none⟩)
    (hrest : task.rest = .done result) :
    task.won type field id = true ∨ result = .error (.notFound type id) := by
  unfold Sound at h
  unfold won
  rw [hwrite, hrest] at h ⊢
  cases h with
  | ended hreports =>
    rcases hreports hagree with ⟨document, rfl⟩ | hmissing
    · exact .inl (decide_eq_true ⟨rfl, hfield, rfl⟩)
    · exact .inr hmissing

end Task

/-! ## Ledgers of a session -/

theorem numbersOf_filterMap_middle {α : Type} (f : α → Option Value) (front : List α) (x : α)
    (back : List α) : numbersOf ((front ++ x :: back).filterMap f) =
      numbersOf (front.filterMap f) + numbersOf (f x).toList + numbersOf (back.filterMap f) := by
  rw [List.filterMap_append, List.filterMap_cons, numbersOf_append]
  cases f x with
  | none => rw [Option.toList_none, numbersOf_nil, add_zero]
  | some document =>
    rw [numbersOf_cons, Option.toList_some, numbersOf_cons, numbersOf_nil, add_zero, add_assoc]

theorem countP_middle (p : Task → Bool) (front : List Task) (task : Task) (back : List Task) :
    (front ++ task :: back).countP p = front.countP p + (p task).toNat + back.countP p := by
  rw [List.countP_append, List.countP_cons, Nat.add_right_comm, Nat.add_assoc]
  cases p task with
  | true => rfl
  | false => rfl

namespace Session

/-- The documents of a type. -/
def documents (s : Session) (type : String) : List Value := s.storage.store.documents type

/-- The documents that have got their numbers and are not yet in the store. -/
def held (s : Session) (type : String) : List Value := s.tasks.filterMap (·.rest.held? type)

/-- The last number of a type. -/
def current (s : Session) (type : String) : Nat := s.storage.counters.current (sequenceName type)

/-- How many creates of a type are about to take a number. -/
def awaiting (s : Session) (type : String) : Nat := s.tasks.countP (·.rest.awaitsNumber type)

/-- How many documents of a type have the identifier. -/
def carriers (s : Session) (type field id : String) : Nat := s.storage.store.carriers type field id

/-- How many deletes by the identifier have removed their document. -/
def won (s : Session) (type field id : String) : Nat := s.tasks.countP (Task.won type field id)

variable {s t u : Session} {action : Action} {actions more : List Action}

theorem Step.contents (h : Step s action t) (hsound : s.Sound) (hkeeps : s.Asks Write.KeepsNumber)
    (type : String) : numbersOf (t.documents type) + numbersOf (action.removed? type).toList =
      numbersOf (s.documents type) + numbersOf (action.inserted? type).toList := by
  obtain ⟨front, task, rest, back, hs, -, hmove, -⟩ := h.move hsound
  have htask : task ∈ s.tasks := hs ▸ List.mem_append_right _ List.mem_cons_self
  exact hmove.contents (hkeeps task htask) type

theorem Step.held (h : Step s action t) (hsound : s.Sound) (type : String) :
    numbersOf (t.held type) + numbersOf (action.inserted? type).toList +
        firstNumbers (s.current type) =
      numbersOf (s.held type) + firstNumbers (t.current type) := by
  obtain ⟨front, task, rest, back, hs, ht, hmove, -⟩ := h.move hsound
  unfold Session.held
  rw [hs, ht, numbersOf_filterMap_middle, numbersOf_filterMap_middle]
  have hheld := hmove.held type
  calc _ = numbersOf (front.filterMap (·.rest.held? type)) +
          numbersOf (back.filterMap (·.rest.held? type)) +
          (numbersOf (rest.held? type).toList + numbersOf (action.inserted? type).toList +
            firstNumbers (s.current type)) := by abel
    _ = _ := by
      unfold Session.current
      rw [hheld]
      abel

theorem Step.awaiting (h : Step s action t) (hsound : s.Sound) (type : String) :
    t.current type + t.awaiting type = s.current type + s.awaiting type := by
  obtain ⟨front, task, rest, back, hs, ht, hmove, -⟩ := h.move hsound
  have hawaiting := hmove.awaiting type
  unfold Session.awaiting Session.current
  simp only [hs, ht, countP_middle]
  omega

theorem Step.carriers (h : Step s action t) (hsound : s.Sound) {type field id : String}
    (hproduces : action.produces type field id = false) :
    t.carriers type field id + t.won type field id ≤
      s.carriers type field id + s.won type field id := by
  obtain ⟨front, task, rest, back, hs, ht, hmove, -⟩ := h.move hsound
  have hcarriers := hmove.carriers hproduces
  have hwon := hmove.won type field id
  unfold Session.carriers Session.won
  simp only [hs, ht, countP_middle]
  omega

/-- What was put into a collection is in it or was taken out. -/
theorem Run.contents (h : Run s actions t) (hsound : s.Sound) (hkeeps : s.Asks Write.KeepsNumber)
    (type : String) :
    numbersOf (t.documents type) + numbersOf (actions.filterMap (Action.removed? type)) =
      numbersOf (s.documents type) + numbersOf (actions.filterMap (Action.inserted? type)) := by
  induction h with
  | nil => rfl
  | @snoc t u actions action hrun hstep ih =>
    have hcontents := hstep.contents (hrun.sound hsound) (hrun.asks hkeeps) type
    rw [numbersOf_filterMap_middle, numbersOf_filterMap_middle, List.filterMap_nil,
      List.filterMap_nil, numbersOf_nil, add_zero, add_zero]
    calc _ = numbersOf (u.documents type) + numbersOf (action.removed? type).toList +
          numbersOf (actions.filterMap (Action.removed? type)) := by abel
      _ = numbersOf (t.documents type) + numbersOf (actions.filterMap (Action.removed? type)) +
          numbersOf (action.inserted? type).toList := by
        rw [hcontents]
        abel
      _ = _ := by rw [ih, add_assoc]

/-- The numbers that a sequence gave out are held, or were inserted. -/
theorem Run.held (h : Run s actions t) (hsound : s.Sound) (type : String) :
    numbersOf (t.held type) + numbersOf (actions.filterMap (Action.inserted? type)) +
        firstNumbers (s.current type) =
      numbersOf (s.held type) + firstNumbers (t.current type) := by
  induction h with
  | nil => rw [List.filterMap_nil, numbersOf_nil, add_zero]
  | @snoc t u actions action hrun hstep ih =>
    have hheld := hstep.held (hrun.sound hsound) type
    rw [numbersOf_filterMap_middle, List.filterMap_nil, numbersOf_nil, add_zero]
    -- What the tasks hold in between, and what was given out till then, stand on both sides.
    refine add_right_cancel (b := numbersOf (t.held type) + firstNumbers (t.current type)) ?_
    calc _ = (numbersOf (u.held type) + numbersOf (action.inserted? type).toList +
            firstNumbers (t.current type)) +
          (numbersOf (t.held type) + numbersOf (actions.filterMap (Action.inserted? type)) +
            firstNumbers (s.current type)) := by abel
      _ = (numbersOf (t.held type) + firstNumbers (u.current type)) +
          (numbersOf (s.held type) + firstNumbers (t.current type)) := by rw [hheld, ih]
      _ = _ := by abel

theorem Run.awaiting (h : Run s actions t) (hsound : s.Sound) (type : String) :
    t.current type + t.awaiting type = s.current type + s.awaiting type := by
  induction h with
  | nil => rfl
  | snoc hrun hstep ih => exact (hstep.awaiting (hrun.sound hsound) type).trans ih

theorem Run.carriers (h : Run s actions t) (hsound : s.Sound) {type field id : String}
    (hproduces : ∀ a ∈ actions, a.produces type field id = false) :
    t.carriers type field id + t.won type field id ≤
      s.carriers type field id + s.won type field id := by
  induction h with
  | nil => exact le_rfl
  | snoc hrun hstep ih =>
    rw [List.forall_mem_append, List.forall_mem_singleton] at hproduces
    exact (hstep.carriers (hrun.sound hsound) hproduces.2).trans (ih hproduces.1)

/-! ## Sessions from the start -/

/-- The tasks before any action, on empty storage. -/
def start (tasks : List Task) : Session := ⟨.empty, tasks⟩

/-- How the documents of a type stand after these actions of these tasks. -/
structure Consistent (tasks : List Task) (actions : List Action) (s : Session) (type : String) :
    Prop where
  /-- Documents in the store and documents about to be inserted have different numbers. -/
  apart : ((s.documents type ++ s.held type).map numberOf).Nodup
  /-- Their numbers are positive and the sequence has given them out. -/
  numbered : ∀ d ∈ s.documents type ++ s.held type,
    ∃ n : Nat, numberOf d = some (.ofInt n) ∧ 0 < n ∧ n ≤ s.current type
  /-- No more numbers are given out than there are creates, so fewer than `2 ^ 63` creates stay
  within 64 bits. -/
  counted : s.current type ≤ tasks.countP (·.write.creates type)
  /-- What was inserted is there, but for what was removed. -/
  length : (s.documents type).length + (actions.filterMap (Action.removed? type)).length =
    (actions.filterMap (Action.inserted? type)).length
  /-- And these are the same documents, by their numbers. -/
  kept : ((s.documents type ++ actions.filterMap (Action.removed? type)).map numberOf).Perm
    ((actions.filterMap (Action.inserted? type)).map numberOf)

section Start

variable {tasks : List Task} (hfresh : ∀ task ∈ tasks, task.Fresh)

include hfresh

theorem start_sound : (start tasks).Sound := fun task htask => (hfresh task htask).sound

theorem start_held (type : String) : (start tasks).held type = [] := by
  refine List.filterMap_eq_nil_iff.mpr fun task htask => ?_
  exact (hfresh task htask).held?_eq_none type

/-- What was inserted is there, but for what was removed. -/
theorem Run.contents_start (h : Run (start tasks) actions s)
    (hkeeps : (start tasks).Asks Write.KeepsNumber) (type : String) :
    numbersOf (s.documents type) + numbersOf (actions.filterMap (Action.removed? type)) =
      numbersOf (actions.filterMap (Action.inserted? type)) := by
  have hcontents := h.contents (start_sound hfresh) hkeeps type
  have hdocuments : (start tasks).documents type = [] := rfl
  rwa [hdocuments, numbersOf_nil, zero_add] at hcontents

/-- The numbers given out are those of the documents in the store, of the documents about to
be inserted, and of the documents removed. -/
theorem Run.ledger (h : Run (start tasks) actions s)
    (hkeeps : (start tasks).Asks Write.KeepsNumber) (type : String) :
    numbersOf (s.documents type) + numbersOf (s.held type) +
        numbersOf (actions.filterMap (Action.removed? type)) = firstNumbers (s.current type) := by
  have hheld := h.held (start_sound hfresh) type
  have hcurrent : firstNumbers ((start tasks).current type) = [] := rfl
  rw [start_held hfresh, numbersOf_nil, zero_add, hcurrent, Multiset.coe_nil, add_zero,
    ← h.contents_start hfresh hkeeps] at hheld
  rw [← hheld]
  abel

theorem Run.consistent (h : Run (start tasks) actions s)
    (hkeeps : (start tasks).Asks Write.KeepsNumber) (type : String) :
    s.Consistent tasks actions type := by
  have hledger := h.ledger hfresh hkeeps type
  -- The numbers in use are some of the first numbers, which differ.
  have hinuse : numbersOf (s.documents type ++ s.held type) ≤ firstNumbers (s.current type) := by
    rw [numbersOf_append, ← hledger]
    exact Multiset.le_add_right _ _
  have hkept : ((s.documents type ++ actions.filterMap (Action.removed? type)).map numberOf).Perm
      ((actions.filterMap (Action.inserted? type)).map numberOf) := by
    refine Multiset.coe_eq_coe.mp ?_
    exact (numbersOf_append _ _).trans (h.contents_start hfresh hkeeps type)
  refine ⟨?_, ?_, ?_, ?_, hkept⟩
  · exact Multiset.nodup_of_le hinuse (nodup_firstNumbers _)
  · intro d hd
    exact mem_firstNumbers.mp (Multiset.mem_of_le hinuse (List.mem_map_of_mem hd))
  · have hawaiting := h.awaiting (start_sound hfresh) type
    have hcurrent : (start tasks).current type = 0 := rfl
    have hcreates : (start tasks).awaiting type ≤ tasks.countP (·.write.creates type) :=
      List.countP_mono_left fun task htask => (hfresh task htask).sound.creates
    omega
  · simpa using hkept.length_eq

end Start

/-- Writes that interleave keep the numbers of documents apart and lose no document. Where one
document has an identifier and nothing produces it again, at most one more delete removes it,
and the others find none. -/
theorem consistent_and_won_once {tasks : List Task} (hfresh : ∀ task ∈ tasks, task.Fresh)
    (hkeeps : ∀ task ∈ tasks, task.write.KeepsNumber) (h : Run (start tasks) actions s) :
    (∀ type, s.Consistent tasks actions type) ∧
    ∀ type field id more t, Run s more t → s.carriers type field id = 1 →
      (∀ a ∈ more, a.produces type field id = false) →
      t.won type field id ≤ s.won type field id + 1 ∧
      ∀ task ∈ t.tasks, task.write = .delete type id → task.writer.idField = field →
        task.writer.Agrees ⟨.delete, type, some id, none⟩ → ∀ result, task.rest = .done result →
        task.won type field id = true ∨ result = .error (.notFound type id) := by
  refine ⟨h.consistent hfresh hkeeps, ?_⟩
  intro type field id more t hmore hone hproduces
  have hsound := h.sound (start_sound hfresh)
  refine ⟨?_, ?_⟩
  · -- One document has the identifier, and a delete that removes it uses it up.
    have hcarriers := hmore.carriers hsound hproduces
    omega
  · intro task htask hwrite hfield hagree result hrest
    exact (hmore.sound hsound task htask).won_or_notFound hwrite hfield hagree hrest

/-- A create, and two deletes of the document that it creates. -/
def ownerRace : List Task :=
  [Write.create "owner" (.object [("id", .string "o1")]), .delete "owner" "o1",
    .delete "owner" "o1"].map fun write => ⟨.make [], write, write.script (.make []) 1⟩

/-- The create has inserted its document. -/
def ownerInserted : List Action × Session := (start ownerRace).follow [0, 0, 0]

/-- The second delete was faster than the first, and both have ended. -/
def ownerRemoved : List Action × Session := ownerInserted.2.follow [1, 2, 2, 1, 1, 2, 2]

/-- The document gets the first number, the second delete removes it, and the first delete
finds none. -/
theorem consistent_and_won_once_ownerRace :
    (∀ task ∈ ownerRace, task.Fresh) ∧ (∀ task ∈ ownerRace, task.write.KeepsNumber) ∧
    ownerInserted.2.Consistent ownerRace ownerInserted.1 "owner" ∧
    ownerInserted.2.current "owner" = 1 ∧ ownerInserted.2.carriers "owner" "id" "o1" = 1 ∧
    (∀ a ∈ ownerRemoved.1, a.produces "owner" "id" "o1" = false) ∧
    ownerRemoved.2.won "owner" "id" "o1" ≤ ownerInserted.2.won "owner" "id" "o1" + 1 ∧
    ownerRemoved.2.won "owner" "id" "o1" = 1 ∧
    ownerRemoved.2.tasks[1]?.map Task.rest = some (.done (.error (.notFound "owner" "o1"))) := by
  have hfresh : ∀ task ∈ ownerRace, task.Fresh := by
    intro task htask
    obtain ⟨write, -, rfl⟩ := List.mem_map.mp htask
    exact ⟨1, rfl⟩
  have hkeeps : ∀ task ∈ ownerRace, task.write.KeepsNumber := by
    simp [ownerRace, Write.KeepsNumber]
  have hone : ownerInserted.2.carriers "owner" "id" "o1" = 1 := by decide +kernel
  have hproduces : ∀ a ∈ ownerRemoved.1, a.produces "owner" "id" "o1" = false := by
    decide +kernel
  obtain ⟨hconsistent, hraces⟩ :=
    consistent_and_won_once hfresh hkeeps (run_follow (start ownerRace) [0, 0, 0])
  obtain ⟨hwon, -⟩ := hraces "owner" "id" "o1" _ _
    (run_follow ownerInserted.2 [1, 2, 2, 1, 1, 2, 2]) hone hproduces
  exact ⟨hfresh, hkeeps, hconsistent "owner", by decide +kernel, hone, hproduces, hwon,
    by decide +kernel, rfl⟩

end Session

end JoinPlan
