import JoinPlan.Proofs.Store.Changes
import JoinPlan.Write.Writer

/-!
# Runs of scripts

A write that is not disturbed takes all of its actions in a row. This file supplies the
pieces that such a run is put together from.

> `Script.Runs`: the script takes these actions, leaves the storage so, and has this result.

A run grows action by action (`Runs.log`, `Runs.hook`, `Runs.call`), and a call answers with
what the storage serves, unless it goes to whom is out of order. A chain that is asked or
told is an induction on its interceptors: `runs_ask` where all agree, `runs_refuse` where one
is the first that refuses, and `runs_tell`.
-/

namespace JoinPlan

/-! ## Runs -/

namespace Script

/-- The script takes these actions and leaves the storage so, with this result. -/
def Runs (faults : Faults) (storage : Storage) (script : Script) (actions : List Action)
    (after : Storage) (result : Except WriteError Value) : Prop :=
  script.run faults storage = (after, ⟨result, actions⟩)

variable {faults : Faults} {storage after : Storage} {next : Script} {actions : List Action}
  {result : Except WriteError Value}

theorem runs_done (faults : Faults) (storage : Storage) (result : Except WriteError Value) :
    (Script.done result).Runs faults storage [] storage result := rfl

/-- A script runs in one way. -/
theorem Runs.unique {script : Script} {actions' : List Action} {after' : Storage}
    {result' : Except WriteError Value} (h : script.Runs faults storage actions after result)
    (h' : script.Runs faults storage actions' after' result') :
    after' = after ∧ result' = result := by
  have hsame := h'.symm.trans h
  simp only [Prod.mk.injEq, WriteOutcome.mk.injEq] at hsame
  exact ⟨hsame.1, hsame.2.1⟩

theorem Runs.log (h : next.Runs faults storage actions after result) (record : Log.Record) :
    (Script.log record next).Runs faults storage (.log record :: actions) after result := by
  unfold Runs at h ⊢
  rw [run, h]
  rfl

theorem Runs.hook (h : next.Runs faults storage actions after result) (call : HookCall) :
    (Script.hook call next).Runs faults storage (.hook call :: actions) after result := by
  unfold Runs at h ⊢
  rw [run, h]
  rfl

theorem Runs.call {c : Call} {next : Except String c.Answer → Script} {middle : Storage}
    {answer : Except String c.Answer} (hanswer : storage.answer faults c = (answer, middle))
    (h : (next answer).Runs faults middle actions after result) :
    (Script.call c next).Runs faults storage (.call c answer :: actions) after result := by
  unfold Runs at h ⊢
  rw [run, hanswer]
  simp only [h]
  rfl

end Script

/-! ## Answers -/

namespace Storage

variable {storage : Storage} {faults : Faults}

theorem answer_of_fault {c : Call} {message : String} (h : faults.message? c = some message) :
    storage.answer faults c = (.error message, storage) := by
  unfold answer
  rw [h]

theorem answer_of_sound {c : Call} (h : faults.message? c = none) :
    storage.answer faults c = (.ok (storage.serve c).1, (storage.serve c).2) := by
  unfold answer
  rw [h]

section Changes

variable {type field id : String} {changes : Members} {front back : List Value} {found : Value}

theorem answer_patch_of_finds (hsound : faults.store = none)
    (h : storage.store.Finds type field id front found back) :
    storage.answer faults (.patch type field id changes) =
      (.ok (some (Store.merged changes found)), { storage with
        store := storage.store.withDocuments type
          (front ++ Store.merged changes found :: back) }) := by
  rw [answer_of_sound (c := .patch type field id changes) hsound, serve, Store.patch_of_finds h]
  rfl

theorem answer_patch_of_lacks (hsound : faults.store = none)
    (h : storage.store.Lacks type field id) :
    storage.answer faults (.patch type field id changes) = (.ok none, storage) := by
  rw [answer_of_sound (c := .patch type field id changes) hsound, serve, Store.patch_of_lacks h]
  rfl

theorem answer_remove_of_finds (hsound : faults.store = none)
    (h : storage.store.Finds type field id front found back) :
    storage.answer faults (.remove type field id) =
      (.ok (some found), { storage with
        store := storage.store.withDocuments type (front ++ back) }) := by
  rw [answer_of_sound (c := .remove type field id) hsound, serve, Store.remove_of_finds h]
  rfl

theorem answer_remove_of_lacks (hsound : faults.store = none)
    (h : storage.store.Lacks type field id) :
    storage.answer faults (.remove type field id) = (.ok none, storage) := by
  rw [answer_of_sound (c := .remove type field id) hsound, serve, Store.remove_of_lacks h]
  rfl

end Changes

end Storage

/-! ## Chains -/

namespace Action

/-- Asking so many interceptors, the first of them at a position. -/
def asks (position count : Nat) : List Action :=
  (List.range' position count).map fun position => .hook (.before position)

/-- Telling so many interceptors, the first of them at a position. -/
def tells (document : Value) (position count : Nat) : List Action :=
  (List.range' position count).map fun position => .hook (.after position document)

end Action

namespace Writer

open Script (Runs)

variable {faults : Faults} {storage after : Storage} {next : Script} {actions : List Action}
  {result : Except WriteError Value} {event : WriteEvent}

/-- Interceptors that agree are asked one after the other. -/
theorem runs_ask_append {front back : Chain} (hfront : ∀ i ∈ front, i.refusal event = none)
    {position : Nat}
    (h : (ask event next (position + front.length) back).Runs faults storage actions after result) :
    (ask event next position (front ++ back)).Runs faults storage
      (Action.asks position front.length ++ actions) after result := by
  induction front generalizing position with
  | nil => exact h
  | cons interceptor rest ih =>
    obtain ⟨hagrees, hrest⟩ := List.forall_mem_cons.mp hfront
    rw [List.cons_append, ask, hagrees]
    refine Runs.hook (ih hrest ?_) (.before position)
    rwa [List.length_cons, Nat.add_comm rest.length 1, ← Nat.add_assoc] at h

/-- Where all interceptors agree, the write goes on. -/
theorem runs_ask {chain : Chain} (hagree : ∀ i ∈ chain, i.refusal event = none)
    (h : next.Runs faults storage actions after result) :
    (ask event next 0 chain).Runs faults storage (Action.asks 0 chain.length ++ actions) after
      result := by
  have hnext : (ask event next 0 (chain ++ [])).Runs faults storage
      (Action.asks 0 chain.length ++ actions) after result := runs_ask_append hagree h
  rwa [List.append_nil] at hnext

theorem runs_tell (document : Value) (chain : Chain) (position : Nat)
    (h : next.Runs faults storage actions after result) :
    (tell document next position chain).Runs faults storage
      (Action.tells document position chain.length ++ actions) after result := by
  induction chain generalizing position with
  | nil => exact h
  | cons interceptor rest ih => exact Runs.hook (ih (position + 1)) (.after position document)

theorem runs_fail (faults : Faults) (storage : Storage) (event : WriteEvent) (error : WriteError)
    (reason : String) :
    (fail event error reason).Runs faults storage [.log ((scope event).failed reason)] storage
      (.error error) :=
  (Script.runs_done faults storage _).log _

/-- The first interceptor that refuses ends the write. -/
theorem runs_refuse {front : Chain} {refuser : Interceptor} {back : Chain} {reason : String}
    (hfront : ∀ i ∈ front, i.refusal event = none) (hrefuser : refuser.refusal event = some reason)
    (faults : Faults) (storage : Storage) :
    (ask event next 0 (front ++ refuser :: back)).Runs faults storage
      (Action.asks 0 (front.length + 1) ++
        [.log (refusedRecord event refuser.name reason),
          .log ((scope event).failed (WriteError.refused refuser.name reason).message)])
      storage (.error (.refused refuser.name reason)) := by
  have hlast : Action.asks 0 (front.length + 1) =
      Action.asks 0 front.length ++ [.hook (.before (0 + front.length))] := by
    unfold Action.asks
    rw [List.range'_concat, List.map_append, Nat.one_mul]
    rfl
  rw [hlast, List.append_assoc]
  refine runs_ask_append hfront ?_
  rw [ask, hrefuser]
  exact Runs.hook ((runs_fail faults storage event _ _).log _) _

/-- A write that happened tells all interceptors, and then the log. -/
theorem runs_commit (w : Writer) (faults : Faults) (storage : Storage) (event : WriteEvent)
    (id : String) (document : Value) (elapsed : Nat) :
    (w.commit event id document elapsed).Runs faults storage
      (Action.tells document 0 w.chain.length ++
        [.log (committedRecord event id), .log ((scope event).completed [] elapsed)])
      storage (.ok document) :=
  runs_tell document w.chain 0 (((Script.runs_done faults storage _).log _).log _)

end Writer

end JoinPlan
