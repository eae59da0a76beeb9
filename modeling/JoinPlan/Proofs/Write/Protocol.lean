import JoinPlan.Proofs.Write.Runs

/-!
# The protocol of a write

This file supplies what a write does, whatever its interceptors say and whatever the storage
holds.

> `Writer.KeepsProtocol`: one clause for each way in which a write ends, with its result, the
> storage behind it and all of its actions in order.
>
> `Write.Logged`: the log has one beginning and one verdict.

The clauses are put together from runs: of a write with an event that all agree to, what is
left to say are its calls (`runs_guarded`). A write ends in one of these ways (`end_cases`), for
some interceptor is the first that refuses or all agree, and so the log follows from the clauses
(`KeepsProtocol.logged`) and a write with a result has had its effect (`effect_of_runs`).

The clauses name every record in full, and they tell a written document by what it answers under
each name (`Write.Effect`).
-/

namespace JoinPlan

/-! ## Writes and their effects -/

/-- What a writer is asked for. -/
inductive Write where
  | create (type : String) (payload : Value)
  | update (type id : String) (payload : Value)
  | delete (type id : String)

namespace Write

/-- The script of a write, which takes a number of milliseconds. -/
def script (w : Writer) (elapsed : Nat) : Write → Script
  | .create type payload => w.create type payload elapsed
  | .update type id payload => w.update type id payload elapsed
  | .delete type id => w.delete type id elapsed

/-- What interceptors are asked about, unless the payload is no object. -/
def event? : Write → Option WriteEvent
  | .create type (.object members) => some ⟨.create, type, none, some members⟩
  | .update type id (.object changes) => some ⟨.update, type, some id, some changes⟩
  | .delete type id => some ⟨.delete, type, some id, none⟩
  | _ => none

/-- A write with an event, by its kind. -/
inductive HasEvent : Write → WriteEvent → Prop
  | create (type : String) (members : Members) :
      HasEvent (.create type (.object members)) ⟨.create, type, none, some members⟩
  | update (type id : String) (changes : Members) :
      HasEvent (.update type id (.object changes)) ⟨.update, type, some id, some changes⟩
  | delete (type id : String) : HasEvent (.delete type id) ⟨.delete, type, some id, none⟩

theorem hasEvent_of_event? {write : Write} {event : WriteEvent}
    (h : write.event? = some event) : write.HasEvent event := by
  cases write with
  | create type payload =>
    cases payload with
    | object members =>
      obtain rfl := Option.some.inj h
      exact .create type members
    | _ => cases h
  | update type id payload =>
    cases payload with
    | object changes =>
      obtain rfl := Option.some.inj h
      exact .update type id changes
    | _ => cases h
  | delete type id =>
    obtain rfl := Option.some.inj h
    exact .delete type id

/-- The unit of work that a write is in the log. -/
def scope : Write → Log.Scope
  | .create type _ => ⟨"WRITE_CREATE", [("type", type)]⟩
  | .update type id _ => ⟨"WRITE_UPDATE", [("id", id), ("type", type)]⟩
  | .delete type id => ⟨"WRITE_DELETE", [("id", id), ("type", type)]⟩

/-! ### What a write puts into the log -/

/-- The record of the beginning. -/
def began : Write → Log.Record
  | .create type _ => ⟨.debug, "WRITE_CREATE_BEGIN", some type, none, none, []⟩
  | .update type id _ => ⟨.debug, "WRITE_UPDATE_BEGIN", some type, none, none, [("id", id)]⟩
  | .delete type id => ⟨.debug, "WRITE_DELETE_BEGIN", some type, none, none, [("id", id)]⟩

/-- The record of the end of a write that happened, with the milliseconds it took. -/
def completed (elapsed : Nat) : Write → Log.Record
  | .create type _ =>
    ⟨.info, "WRITE_CREATE_COMPLETE", some type, none, none, [("elapsed_ms", toString elapsed)]⟩
  | .update type id _ =>
    ⟨.info, "WRITE_UPDATE_COMPLETE", some type, none, none,
      [("elapsed_ms", toString elapsed), ("id", id)]⟩
  | .delete type id =>
    ⟨.info, "WRITE_DELETE_COMPLETE", some type, none, none,
      [("elapsed_ms", toString elapsed), ("id", id)]⟩

/-- The record of the end of a write that did not happen. -/
def failed (reason : String) : Write → Log.Record
  | .create type _ => ⟨.error, "WRITE_CREATE_FAILED", some type, none, some reason, []⟩
  | .update type id _ =>
    ⟨.error, "WRITE_UPDATE_FAILED", some type, none, some reason, [("id", id)]⟩
  | .delete type id =>
    ⟨.error, "WRITE_DELETE_FAILED", some type, none, some reason, [("id", id)]⟩

/-- What the storage is asked to do, in the records between the first and the last. -/
def op : Write → String
  | .create .. => "create"
  | .update .. => "update"
  | .delete .. => "delete"

/-- The type of the documents that are written. -/
def type : Write → String
  | .create type _ | .update type _ _ | .delete type _ => type

/-- The record of an interceptor that refuses. -/
def rejected (interceptor reason : String) (write : Write) : Log.Record :=
  ⟨.warn, "WRITE_REJECTED", some write.type, none, some reason,
    [("interceptor", interceptor), ("op", write.op)]⟩

/-- The record of a write that happened to the document with an identifier. -/
def committed (id : String) (write : Write) : Log.Record :=
  ⟨.info, "WRITE_COMMITTED", some write.type, none, none, [("id", id), ("op", write.op)]⟩

/-- What is wrong with a payload that is no object. -/
def complaint : Write → String
  | .create type _ => type ++ " document must be a JSON object"
  | .update type _ _ | .delete type _ => type ++ " patch must be a JSON object"

/-- The reason in the log when the sequence or the store fails with a message. A create gives
the message as it is. -/
def faultReason (message : String) : Write → String
  | .create .. => message
  | .update .. | .delete .. => "Store failure: " ++ message

section Records

open Log

theorem began_scope (write : Write) : write.scope.began = write.began := by
  cases write with
  | create type payload => exact Record.make_eq List.mergeSort_nil
  | update type id payload => exact Record.make_eq (List.mergeSort_singleton _)
  | delete type id => exact Record.make_eq (List.mergeSort_singleton _)

theorem completed_scope (elapsed : Nat) (write : Write) :
    write.scope.completed [] elapsed = write.completed elapsed := by
  have horder : "elapsed_ms" < "id" := by decide
  cases write with
  | create type payload => exact Record.make_eq (List.mergeSort_singleton _)
  | update type id payload =>
    exact Record.make_eq ((Record.mergeSort_pair _ _).trans (if_pos horder))
  | delete type id => exact Record.make_eq ((Record.mergeSort_pair _ _).trans (if_pos horder))

theorem failed_scope (reason : String) (write : Write) :
    write.scope.failed reason = write.failed reason := by
  cases write with
  | create type payload => exact Record.make_eq List.mergeSort_nil
  | update type id payload => exact Record.make_eq (List.mergeSort_singleton _)
  | delete type id => exact Record.make_eq (List.mergeSort_singleton _)

theorem refusedRecord_eq {write : Write} {event : WriteEvent} (h : write.HasEvent event)
    (interceptor reason : String) :
    Writer.refusedRecord event interceptor reason = write.rejected interceptor reason := by
  have horder : ¬"op" < "interceptor" := by decide
  have hsorted := (Record.mergeSort_pair ("interceptor", interceptor) ("op", write.op)).trans
    (if_neg horder)
  cases h with
  | create type members => exact Record.make_eq hsorted
  | update type id changes => exact Record.make_eq hsorted
  | delete type id => exact Record.make_eq hsorted

theorem committedRecord_eq {write : Write} {event : WriteEvent} (h : write.HasEvent event)
    (id : String) : Writer.committedRecord event id = write.committed id := by
  have horder : ¬"op" < "id" := by decide
  have hsorted := (Record.mergeSort_pair ("id", id) ("op", write.op)).trans (if_neg horder)
  cases h with
  | create type members => exact Record.make_eq hsorted
  | update type id changes => exact Record.make_eq hsorted
  | delete type id => exact Record.make_eq hsorted

end Records

/-- The error of a write that its interceptors agree to, where something is out of order. -/
def fault? (faults : Faults) : Write → Option WriteError
  | .create .. => (faults.sequence.map .sequence).or (faults.store.map .store)
  | _ => faults.store.map .store

end Write

/-- The documents of one collection are these, and the other collections are as before. -/
def Store.BecomesAt (before after : Store) (collection : String) (documents : List Value) : Prop :=
  after.documents collection = documents ∧
    ∀ other ≠ collection, after.documents other = before.documents other

/-- The sequence of a type is one number further, and every other one is where it was. -/
def Counters.TakesNumber (before after : Counters) (type : String) : Prop :=
  after.current (type ++ "_ID") = before.current (type ++ "_ID") + 1 ∧
    ∀ other ≠ type ++ "_ID", after.current other = before.current other

/-- What a write that happened does to the storage, and with which document. A created document
has the next number of its type under `ID` and otherwise what was sent, and stands behind the
others. An updated one has under every name the last value among the changes, and what it had
before under the names that they leave out; it stays between the same documents. A deleted one
is taken out from between them. -/
def Write.Effect (w : Writer) (storage : Storage) (document : Value) (after : Storage) :
    Write → Prop
  | .create type payload => ∃ members stored : Members,
      payload = .object members ∧ document = .object stored ∧
      (∀ key, stored.get? key = if key = "ID" then
        some (.number (.int (storage.counters.current (type ++ "_ID") + 1 : Nat)))
        else members.get? key) ∧
      (members.Distinct → stored.Distinct) ∧
      storage.store.BecomesAt after.store type (storage.store.documents type ++ [document]) ∧
      storage.counters.TakesNumber after.counters type
  | .update type id payload => ∃ changes old new : Members, ∃ front back,
      payload = .object changes ∧ document = .object new ∧
      storage.store.Finds type w.idField id front (.object old) back ∧
      (∀ key, new.get? key = (Members.get? changes.reverse key).or (old.get? key)) ∧
      (old.Distinct → new.Distinct) ∧
      storage.store.BecomesAt after.store type (front ++ document :: back) ∧
      after.counters = storage.counters
  | .delete type id => ∃ front back,
      storage.store.Finds type w.idField id front document back ∧
      storage.store.BecomesAt after.store type (front ++ back) ∧
      after.counters = storage.counters

theorem sequenceName_eq (type : String) : sequenceName type = type ++ "_ID" :=
  String.append_assoc

theorem Counters.takesNumber_advance (counters : Counters) (type : String) :
    counters.TakesNumber (counters.advance (sequenceName type)).2 type := by
  rw [sequenceName_eq]
  exact ⟨counters.current_advance_self _, fun _ hother => counters.current_advance_of_ne hother⟩

namespace Writer

/-- All interceptors agree to the write. -/
def Agrees (w : Writer) (event : WriteEvent) : Prop := ∀ i ∈ w.chain, i.refusal event = none

/-- How a write ends, with all of its actions in order. -/
structure KeepsProtocol (w : Writer) (faults : Faults) (storage : Storage) (elapsed : Nat)
    (write : Write) : Prop where
  /-- A payload that is no object: no interceptor is called, and the storage is as before. -/
  invalid : write.event? = none →
    (write.script w elapsed).Runs faults storage
      [.log write.began, .log (write.failed ("Invalid document: " ++ write.complaint))]
      storage (.error (.invalidDocument write.complaint))
  /-- The first interceptor that refuses is the last one asked; none is told, and the storage
  is as before. -/
  refused : ∀ event front refuser back reason, write.event? = some event →
    w.chain = front ++ refuser :: back → (∀ i ∈ front, i.refusal event = none) →
    refuser.refusal event = some reason →
    (write.script w elapsed).Runs faults storage
      (.log write.began :: Action.asks 0 (front.length + 1) ++
        [.log (write.rejected refuser.name reason),
          .log (write.failed s!"Write rejected by {refuser.name}: {reason}")])
      storage (.error (.refused refuser.name reason))
  /-- The sequence or the store fails: all interceptors are asked and none is told. At most a
  number is lost, when the store fails in a create. -/
  failed : ∀ event error, write.event? = some event → w.Agrees event →
    write.fault? faults = some error → ∃ calls message after,
    (error = .sequence message ∨ error = .store message) ∧
    (write.script w elapsed).Runs faults storage
      (.log write.began :: Action.asks 0 w.chain.length ++ calls ++
        [.log (write.failed (write.faultReason message))])
      after (.error error) ∧
    (∀ a ∈ calls, a.isCall) ∧
    (after = storage ∨ faults.sequence = none ∧ ∃ type payload, write = .create type payload ∧
      after.store = storage.store ∧ storage.counters.TakesNumber after.counters type)
  /-- No document has the identifier: all interceptors are asked and none is told, and the
  storage is as before. -/
  missing : ∀ event id, write.event? = some event → w.Agrees event → write.fault? faults = none →
    event.id = some id → storage.store.Lacks event.type w.idField id → ∃ call,
    (write.script w elapsed).Runs faults storage
      (.log write.began :: Action.asks 0 w.chain.length ++ [call] ++
        [.log (write.failed s!"Resource not found: {event.type}/{id}")])
      storage (.error (.notFound event.type id)) ∧
    call.isCall
  /-- Otherwise all interceptors are asked, then the storage is changed, and then all
  interceptors are told of the document that is also returned. -/
  succeeded : ∀ event, write.event? = some event → w.Agrees event → write.fault? faults = none →
    (∀ id, event.id = some id → ¬storage.store.Lacks event.type w.idField id) →
    ∃ calls document after,
    (write.script w elapsed).Runs faults storage
      (.log write.began :: Action.asks 0 w.chain.length ++ calls ++
        (Action.tells document 0 w.chain.length ++
        [.log (write.committed (event.id.getD
            (toString (storage.counters.current (event.type ++ "_ID") + 1)))),
          .log (write.completed elapsed)]))
      after (.ok document) ∧
    (∀ a ∈ calls, a.isCall) ∧ write.Effect w storage document after

/-! ## Each way to end -/

section Ends

open Script (Runs)

variable {w : Writer} {faults : Faults} {storage : Storage} {event : WriteEvent}

/-- A write that all interceptors agree to makes its calls behind the questions. -/
theorem runs_guarded (hagree : w.Agrees event) {script : Script} (calls : List Action)
    {rest : List Action} {after : Storage} {result : Except WriteError Value}
    (h : script.Runs faults storage (calls ++ rest) after result) :
    (w.guarded event script).Runs faults storage
      (.log (scope event).began :: Action.asks 0 w.chain.length ++ calls ++ rest) after result := by
  rw [List.append_assoc]
  exact (runs_ask hagree h).log _

/-- A write whose payload is no object ends before any interceptor is asked. -/
theorem runs_of_event?_eq_none (w : Writer) (faults : Faults) (storage : Storage) (elapsed : Nat)
    {write : Write} (h : write.event? = none) :
    (write.script w elapsed).Runs faults storage
      [.log write.began, .log (write.failed ("Invalid document: " ++ write.complaint))]
      storage (.error (.invalidDocument write.complaint)) := by
  rw [← Write.began_scope, ← Write.failed_scope]
  cases write with
  | create type payload =>
    cases payload with
    | object members => cases h
    | _ => exact (runs_fail faults storage _ _ _).log _
  | update type id payload =>
    cases payload with
    | object changes => cases h
    | _ => exact (runs_fail faults storage _ _ _).log _
  | delete type id => cases h

/-- A write with an event is guarded, by calls that do not depend on the interceptors. -/
theorem exists_guarded (w : Writer) (elapsed : Nat) {write : Write}
    (h : write.event? = some event) :
    ∃ calls, write.script w elapsed = w.guarded event calls ∧ scope event = write.scope := by
  cases Write.hasEvent_of_event? h with
  | create type members => exact ⟨_, rfl, rfl⟩
  | update type id changes => exact ⟨_, rfl, rfl⟩
  | delete type id => exact ⟨_, rfl, rfl⟩

theorem runs_of_refusal (elapsed : Nat) {write : Write} (hevent : write.event? = some event)
    {front : Chain} {refuser : Interceptor} {back : Chain} {reason : String}
    (hchain : w.chain = front ++ refuser :: back) (hfront : ∀ i ∈ front, i.refusal event = none)
    (hrefuser : refuser.refusal event = some reason) (faults : Faults) (storage : Storage) :
    (write.script w elapsed).Runs faults storage
      (.log write.began :: Action.asks 0 (front.length + 1) ++
        [.log (write.rejected refuser.name reason),
          .log (write.failed s!"Write rejected by {refuser.name}: {reason}")])
      storage (.error (.refused refuser.name reason)) := by
  obtain ⟨calls, hscript, hscope⟩ := exists_guarded w elapsed hevent
  rw [← Write.began_scope, ← Write.failed_scope,
    ← Write.refusedRecord_eq (Write.hasEvent_of_event? hevent), hscript, ← hscope, guarded, hchain]
  exact (runs_refuse hfront hrefuser faults storage).log _

/-- Where the sequence or the store fails, no interceptor is told. -/
theorem runs_of_fault (elapsed : Nat) {write : Write} {error : WriteError}
    (hevent : write.event? = some event) (hagree : w.Agrees event)
    (hfault : write.fault? faults = some error) (storage : Storage) : ∃ calls message after,
    (error = .sequence message ∨ error = .store message) ∧
    (write.script w elapsed).Runs faults storage
      (.log write.began :: Action.asks 0 w.chain.length ++ calls ++
        [.log (write.failed (write.faultReason message))])
      after (.error error) ∧
    (∀ a ∈ calls, a.isCall) ∧
    (after = storage ∨ faults.sequence = none ∧ ∃ type payload, write = .create type payload ∧
      after.store = storage.store ∧ storage.counters.TakesNumber after.counters type) := by
  simp only [← Write.began_scope, ← Write.failed_scope]
  cases Write.hasEvent_of_event? hevent with
  | create type members =>
    unfold Write.fault? at hfault
    cases hsequence : faults.sequence with
    | some message =>
      rw [hsequence] at hfault
      obtain rfl := Option.some.inj hfault
      refine ⟨[.call (.advance (sequenceName type)) (.error message)], message, storage,
        .inl rfl, ?_, by simp [Action.isCall], .inl rfl⟩
      exact runs_guarded hagree _
        (Runs.call (Storage.answer_of_fault hsequence) (runs_fail faults storage _ _ _))
    | none =>
      rw [hsequence, Option.map_none, Option.none_or] at hfault
      obtain ⟨message, hstore, rfl⟩ := Option.map_eq_some_iff.mp hfault
      let number := storage.counters.current (sequenceName type) + 1
      let stored := Value.object (Members.insert members numberField (.ofInt number))
      refine ⟨[.call (.advance (sequenceName type)) (.ok number),
        .call (.insert type stored) (.error message)], message,
        { storage with counters := (storage.counters.advance (sequenceName type)).2 },
        .inr rfl, ?_, by simp [Action.isCall],
        .inr ⟨rfl, type, _, rfl, rfl, storage.counters.takesNumber_advance type⟩⟩
      exact runs_guarded hagree _ (Runs.call (Storage.answer_of_sound hsequence)
        (Runs.call (Storage.answer_of_fault hstore) (runs_fail faults _ _ _ _)))
  | update type id changes =>
    obtain ⟨message, hstore, rfl⟩ := Option.map_eq_some_iff.mp hfault
    refine ⟨[.call (.patch type w.idField id changes) (.error message)], message, storage,
      .inr rfl, ?_, by simp [Action.isCall], .inl rfl⟩
    exact runs_guarded hagree _
      (Runs.call (Storage.answer_of_fault hstore) (runs_fail faults storage _ _ _))
  | delete type id =>
    obtain ⟨message, hstore, rfl⟩ := Option.map_eq_some_iff.mp hfault
    refine ⟨[.call (.remove type w.idField id) (.error message)], message, storage,
      .inr rfl, ?_, by simp [Action.isCall], .inl rfl⟩
    exact runs_guarded hagree _
      (Runs.call (Storage.answer_of_fault hstore) (runs_fail faults storage _ _ _))

/-- Where no document has the identifier, no interceptor is told. -/
theorem runs_of_lacks (elapsed : Nat) {write : Write} {id : String}
    (hevent : write.event? = some event) (hagree : w.Agrees event)
    (hsound : write.fault? faults = none) (hid : event.id = some id)
    (hlacks : storage.store.Lacks event.type w.idField id) : ∃ call,
    (write.script w elapsed).Runs faults storage
      (.log write.began :: Action.asks 0 w.chain.length ++ [call] ++
        [.log (write.failed s!"Resource not found: {event.type}/{id}")])
      storage (.error (.notFound event.type id)) ∧
    call.isCall := by
  rw [← Write.began_scope, ← Write.failed_scope]
  cases Write.hasEvent_of_event? hevent with
  | create type members => cases hid
  | update type id' changes =>
    obtain rfl := Option.some.inj hid
    have hstore : faults.store = none := Option.map_eq_none_iff.mp hsound
    refine ⟨.call (.patch type w.idField id' changes) (.ok none), ?_, rfl⟩
    exact runs_guarded hagree _
      (Runs.call (Storage.answer_patch_of_lacks hstore hlacks) (runs_fail faults storage _ _ _))
  | delete type id' =>
    obtain rfl := Option.some.inj hid
    have hstore : faults.store = none := Option.map_eq_none_iff.mp hsound
    refine ⟨.call (.remove type w.idField id') (.ok none), ?_, rfl⟩
    exact runs_guarded hagree _
      (Runs.call (Storage.answer_remove_of_lacks hstore hlacks) (runs_fail faults storage _ _ _))

/-- The documents of one collection are as set, and the others as they were. -/
theorem becomesAt_withDocuments (store : Store) (collection : String) (documents : List Value) :
    store.BecomesAt (store.withDocuments collection documents) collection documents := by
  refine ⟨store.documents_withDocuments_self collection documents, ?_⟩
  intro other hother
  exact store.documents_withDocuments_of_ne hother documents

/-- A write that nothing stands against changes the storage between asking and telling. -/
theorem runs_of_sound (elapsed : Nat) {write : Write} (hevent : write.event? = some event)
    (hagree : w.Agrees event) (hsound : write.fault? faults = none)
    (hthere : ∀ id, event.id = some id → ¬storage.store.Lacks event.type w.idField id) :
    ∃ calls document after,
    (write.script w elapsed).Runs faults storage
      (.log write.began :: Action.asks 0 w.chain.length ++ calls ++
        (Action.tells document 0 w.chain.length ++
        [.log (write.committed (event.id.getD
            (toString (storage.counters.current (event.type ++ "_ID") + 1)))),
          .log (write.completed elapsed)]))
      after (.ok document) ∧
    (∀ a ∈ calls, a.isCall) ∧ write.Effect w storage document after := by
  simp only [← Write.began_scope, ← Write.completed_scope, ← sequenceName_eq,
    ← Write.committedRecord_eq (Write.hasEvent_of_event? hevent)]
  cases Write.hasEvent_of_event? hevent with
  | create type members =>
    obtain ⟨hsequence, hstore⟩ := Option.or_eq_none_iff.mp hsound
    have hadvance : faults.sequence = none := Option.map_eq_none_iff.mp hsequence
    have hinsert : faults.store = none := Option.map_eq_none_iff.mp hstore
    let number := storage.counters.current (sequenceName type) + 1
    let stored := Value.object (Members.insert members numberField (.ofInt number))
    refine ⟨[.call (.advance (sequenceName type)) (.ok number),
      .call (.insert type stored) (.ok ())], stored,
      ⟨storage.store.insert type stored, (storage.counters.advance (sequenceName type)).2⟩, ?_,
      by simp [Action.isCall], ?_⟩
    · exact runs_guarded hagree _ (Runs.call (Storage.answer_of_sound hadvance)
        (Runs.call (Storage.answer_of_sound hinsert) (runs_commit w faults _ _ _ stored elapsed)))
    · refine ⟨members, _, rfl, rfl, fun key => ?_, fun hdistinct => ?_,
        becomesAt_withDocuments _ _ _, storage.counters.takesNumber_advance type⟩
      · rw [← sequenceName_eq]
        exact Members.get?_insert members "ID" key _
      · exact Members.distinct_insert hdistinct "ID" _
  | update type id changes =>
    have hstore : faults.store = none := Option.map_eq_none_iff.mp hsound
    rcases storage.store.finds_or_lacks type w.idField id with hfinds | hlacks
    · obtain ⟨front, found, back, hfinds⟩ := hfinds
      cases found with
      | object old =>
        refine ⟨[.call (.patch type w.idField id changes)
            (.ok (some (Store.merged changes (.object old))))], Store.merged changes (.object old),
          ⟨_, _⟩, ?_, by simp [Action.isCall], changes, old, _, front, back,
          rfl, rfl, hfinds, fun key => Members.get?_insertAll_reverse old changes key,
          fun hdistinct => Members.distinct_insertAll hdistinct changes,
          becomesAt_withDocuments _ _ _, rfl⟩
        exact runs_guarded hagree _ (Runs.call (Storage.answer_patch_of_finds hstore hfinds)
          (runs_commit w faults _ _ _ _ elapsed))
      | _ => cases hfinds.here
    · exact absurd hlacks (hthere id rfl)
  | delete type id =>
    have hstore : faults.store = none := Option.map_eq_none_iff.mp hsound
    rcases storage.store.finds_or_lacks type w.idField id with hfinds | hlacks
    · obtain ⟨front, found, back, hfinds⟩ := hfinds
      refine ⟨[.call (.remove type w.idField id) (.ok (some found))], found, ⟨_, _⟩, ?_,
        by simp [Action.isCall], front, back, hfinds, becomesAt_withDocuments _ _ _, rfl⟩
      exact runs_guarded hagree _ (Runs.call (Storage.answer_remove_of_finds hstore hfinds)
        (runs_commit w faults _ _ _ _ elapsed))
    · exact absurd hlacks (hthere id rfl)

end Ends

/-! ## The log of a write -/

/-- Asking leaves no record behind the first. -/
theorem records_opening (record : Log.Record) (position count : Nat) :
    (.log record :: Action.asks position count).filterMap Action.record? = [record] := by
  have hasks : (Action.asks position count).filterMap Action.record? = [] := by
    refine List.filterMap_eq_nil_iff.mpr fun a ha => ?_
    obtain ⟨i, -, rfl⟩ := List.mem_map.mp ha
    rfl
  exact congrArg (record :: ·) hasks

theorem records_tells (document : Value) (position count : Nat) :
    (Action.tells document position count).filterMap Action.record? = [] := by
  refine List.filterMap_eq_nil_iff.mpr fun a ha => ?_
  obtain ⟨i, -, rfl⟩ := List.mem_map.mp ha
  rfl

theorem records_calls {calls : List Action} (h : ∀ a ∈ calls, a.isCall) :
    calls.filterMap Action.record? = [] := by
  refine List.filterMap_eq_nil_iff.mpr fun a ha => ?_
  have hcall := h a ha
  cases a with
  | call c answer => rfl
  | _ => cases hcall

/-- The log of an outcome as its actions show it. -/
theorem records_run {script : Script} {faults : Faults} {storage after : Storage}
    {actions : List Action} {result : Except WriteError Value}
    (h : script.Runs faults storage actions after result) :
    (script.run faults storage).2.result = result ∧
      (script.run faults storage).2.records = actions.filterMap Action.record? := by
  rw [show script.run faults storage = _ from h]
  exact ⟨rfl, rfl⟩

end Writer

/-- A failure of the sequence or the store is no refusal. -/
theorem Write.fault?_ne_refused {write : Write} {faults : Faults} {error : WriteError}
    (h : write.fault? faults = some error) (interceptor reason : String) :
    error ≠ .refused interceptor reason := by
  intro he
  subst he
  cases write with
  | create type payload =>
    rcases Option.or_eq_some_iff.mp h with hsequence | ⟨-, hstore⟩
    · obtain ⟨message, -, hmessage⟩ := Option.map_eq_some_iff.mp hsequence
      cases hmessage
    · obtain ⟨message, -, hmessage⟩ := Option.map_eq_some_iff.mp hstore
      cases hmessage
  | _ =>
    obtain ⟨message, -, hmessage⟩ := Option.map_eq_some_iff.mp h
    cases hmessage

/-- The whole log of a write by its result. It opens with the beginning of the write and
closes with one verdict: of success when there is a document, of failure otherwise. What
stands between them tells that the write happened or was refused. -/
inductive Write.Logged (write : Write) (elapsed : Nat) :
    Except WriteError Value → List Log.Record → Prop
  | happened (document : Value) (id : String) :
      write.Logged elapsed (.ok document)
        [write.began, write.committed id, write.completed elapsed]
  | refused (interceptor reason : String) :
      write.Logged elapsed (.error (.refused interceptor reason))
        [write.began, write.rejected interceptor reason,
          write.failed s!"Write rejected by {interceptor}: {reason}"]
  | failed (error : WriteError) (reason : String)
      (hother : ∀ interceptor why, error ≠ .refused interceptor why) :
      write.Logged elapsed (.error error) [write.began, write.failed reason]

namespace Writer

/-- Either some interceptor is the first that refuses, or all agree. -/
theorem exists_refuser_or_agrees (w : Writer) (event : WriteEvent) :
    (∃ front refuser back reason, w.chain = front ++ refuser :: back ∧
      (∀ i ∈ front, i.refusal event = none) ∧ refuser.refusal event = some reason) ∨
    w.Agrees event := by
  cases hfind : w.chain.find? fun i => (i.refusal event).isSome with
  | some refuser =>
    left
    obtain ⟨hrefuses, front, back, hchain, hfront⟩ := List.find?_eq_some_iff_append.mp hfind
    obtain ⟨reason, hreason⟩ := Option.isSome_iff_exists.mp hrefuses
    refine ⟨front, refuser, back, reason, hchain, fun i hi => ?_, hreason⟩
    simpa using hfront i hi
  | none =>
    right
    intro i hi
    simpa using List.find?_eq_none.mp hfind i hi

/-- There are no other ways to end: a payload is no object, an interceptor is the first that
refuses, something is out of order, no document has the identifier, or nothing is in the way. -/
theorem end_cases (w : Writer) (faults : Faults) (storage : Storage) (write : Write) :
    write.event? = none ∨ ∃ event, write.event? = some event ∧
      ((∃ front refuser back reason, w.chain = front ++ refuser :: back ∧
          (∀ i ∈ front, i.refusal event = none) ∧ refuser.refusal event = some reason) ∨
        w.Agrees event ∧ ((∃ error, write.fault? faults = some error) ∨
          write.fault? faults = none ∧
            ((∃ id, event.id = some id ∧ storage.store.Lacks event.type w.idField id) ∨
              ∀ id, event.id = some id → ¬storage.store.Lacks event.type w.idField id))) := by
  cases hevent : write.event? with
  | none => exact .inl rfl
  | some event =>
    refine .inr ⟨event, rfl, ?_⟩
    rcases w.exists_refuser_or_agrees event with hrefused | hagree
    · exact .inl hrefused
    · refine .inr ⟨hagree, ?_⟩
      cases hfault : write.fault? faults with
      | some error => exact .inl ⟨error, rfl⟩
      | none =>
        refine .inr ⟨rfl, ?_⟩
        by_cases hmissing : ∃ id, event.id = some id ∧
            storage.store.Lacks event.type w.idField id
        · exact .inl hmissing
        · exact .inr fun id hid hlacks => hmissing ⟨id, hid, hlacks⟩

/-- A write with a result has had its effect, for no other way to end has one. -/
theorem effect_of_runs {w : Writer} {faults : Faults} {storage after : Storage} {elapsed : Nat}
    {write : Write} {actions : List Action} {document : Value}
    (h : (write.script w elapsed).Runs faults storage actions after (.ok document)) :
    write.Effect w storage document after := by
  rcases w.end_cases faults storage write with hevent | ⟨event, hevent,
    ⟨front, refuser, back, reason, hchain, hfront, hrefuser⟩ |
    ⟨hagree, ⟨error, hfault⟩ | ⟨hfault, ⟨id, hid, hlacks⟩ | hthere⟩⟩⟩
  · have hruns := runs_of_event?_eq_none w faults storage elapsed hevent
    cases (hruns.unique h).2
  · have hruns := runs_of_refusal elapsed hevent hchain hfront hrefuser faults storage
    cases (hruns.unique h).2
  · obtain ⟨calls, message, after', -, hruns, -, -⟩ :=
      runs_of_fault elapsed hevent hagree hfault storage
    cases (hruns.unique h).2
  · obtain ⟨call, hruns, -⟩ := runs_of_lacks elapsed hevent hagree hfault hid hlacks
    cases (hruns.unique h).2
  · obtain ⟨calls, document', after', hruns, -, heffect⟩ :=
      runs_of_sound elapsed hevent hagree hfault hthere
    obtain ⟨rfl, hresult⟩ := hruns.unique h
    obtain rfl := Except.ok.inj hresult
    exact heffect

/-- A write that keeps the protocol ends in one of its ways, so its log has one verdict. -/
theorem KeepsProtocol.logged {w : Writer} {faults : Faults} {storage : Storage} {elapsed : Nat}
    {write : Write} (h : w.KeepsProtocol faults storage elapsed write) :
    write.Logged elapsed ((write.script w elapsed).run faults storage).2.result
      ((write.script w elapsed).run faults storage).2.records := by
  rcases w.end_cases faults storage write with hevent | ⟨event, hevent,
    ⟨front, refuser, back, reason, hchain, hfront, hrefuser⟩ |
    ⟨hagree, ⟨error, hfault⟩ | ⟨hfault, ⟨id, hid, hlacks⟩ | hthere⟩⟩⟩
  · obtain ⟨hresult, hrecords⟩ := records_run (h.invalid hevent)
    rw [hresult, hrecords]
    exact .failed _ _ fun _ _ => nofun
  · obtain ⟨hresult, hrecords⟩ :=
      records_run (h.refused event front refuser back reason hevent hchain hfront hrefuser)
    rw [hresult, hrecords, List.filterMap_append, records_opening]
    exact .refused refuser.name reason
  · obtain ⟨calls, message, after, -, hruns, hcalls, -⟩ :=
      h.failed event error hevent hagree hfault
    obtain ⟨hresult, hrecords⟩ := records_run hruns
    rw [hresult, hrecords, List.filterMap_append, List.filterMap_append, records_opening,
      records_calls hcalls]
    exact .failed error _ (Write.fault?_ne_refused hfault)
  · obtain ⟨call, hruns, hcall⟩ := h.missing event id hevent hagree hfault hid hlacks
    obtain ⟨hresult, hrecords⟩ := records_run hruns
    have hcalls : ∀ a ∈ [call], a.isCall := by simpa using hcall
    rw [hresult, hrecords, List.filterMap_append, List.filterMap_append, records_opening,
      records_calls hcalls]
    exact .failed _ _ fun _ _ => nofun
  · obtain ⟨calls, document, after, hruns, hcalls, -⟩ :=
      h.succeeded event hevent hagree hfault hthere
    obtain ⟨hresult, hrecords⟩ := records_run hruns
    rw [hresult, hrecords, List.filterMap_append, List.filterMap_append,
      List.filterMap_append, records_opening, records_calls hcalls, records_tells]
    exact .happened document _

/-- Every write keeps the protocol, whatever the interceptors say of it, and whatever the
storage holds and is out of order; and its log has one beginning and one verdict. -/
theorem keepsProtocol_and_logged (w : Writer) (faults : Faults) (storage : Storage)
    (elapsed : Nat) (write : Write) :
    w.KeepsProtocol faults storage elapsed write ∧
      write.Logged elapsed ((write.script w elapsed).run faults storage).2.result
        ((write.script w elapsed).run faults storage).2.records := by
  have hkeeps : w.KeepsProtocol faults storage elapsed write := by
    refine ⟨?_, ?_, ?_, ?_, ?_⟩
    · intro hevent
      exact runs_of_event?_eq_none w faults storage elapsed hevent
    · intro event front refuser back reason hevent hchain hfront hrefuser
      exact runs_of_refusal elapsed hevent hchain hfront hrefuser faults storage
    · intro event error hevent hagree hfault
      exact runs_of_fault elapsed hevent hagree hfault storage
    · intro event id hevent hagree hsound hid hlacks
      exact runs_of_lacks elapsed hevent hagree hsound hid hlacks
    · intro event hevent hagree hsound hthere
      exact runs_of_sound elapsed hevent hagree hsound hthere
  exact ⟨hkeeps, hkeeps.logged⟩

/-- A writer with an interceptor that agrees to everything, and one that keeps orders from being
deleted. -/
def ofLockedOrders : Writer where
  chain := [⟨"audit", fun _ => none⟩,
    ⟨"lock", fun event => if event.operation = .delete then some "orders are kept" else none⟩]
  idField := "id"

/-- Two orders, and no number given away. -/
def twoOrders : Storage where
  store := Store.empty.withDocuments "order"
    [.object [("id", .string "o1"), ("total", .number (.int 1))], .object [("id", .string "o2")]]
  counters := .empty

/-- A delete that is refused, an update, and a create that finds no room, with all that they
do. -/
theorem keepsProtocol_and_logged_ofLockedOrders :
    ((ofLockedOrders.delete "order" "o1" 5).run .none twoOrders =
      (twoOrders, ⟨.error (.refused "lock" "orders are kept"),
        [.log ⟨.debug, "WRITE_DELETE_BEGIN", some "order", none, none, [("id", "o1")]⟩,
          .hook (.before 0), .hook (.before 1),
          .log ⟨.warn, "WRITE_REJECTED", some "order", none, some "orders are kept",
            [("interceptor", "lock"), ("op", "delete")]⟩,
          .log ⟨.error, "WRITE_DELETE_FAILED", some "order", none,
            some "Write rejected by lock: orders are kept", [("id", "o1")]⟩]⟩)) ∧
    (∃ calls document after,
      (ofLockedOrders.update "order" "o1" (.object [("total", .number (.int 2))]) 5).run
          .none twoOrders =
        (after, ⟨.ok document,
          .log ⟨.debug, "WRITE_UPDATE_BEGIN", some "order", none, none, [("id", "o1")]⟩ ::
            .hook (.before 0) :: .hook (.before 1) :: calls ++
            [.hook (.after 0 document), .hook (.after 1 document),
              .log ⟨.info, "WRITE_COMMITTED", some "order", none, none,
                [("id", "o1"), ("op", "update")]⟩,
              .log ⟨.info, "WRITE_UPDATE_COMPLETE", some "order", none, none,
                [("elapsed_ms", "5"), ("id", "o1")]⟩]⟩) ∧
      (∀ a ∈ calls, a.isCall) ∧
      document.get? "id" = some (.string "o1") ∧
      document.get? "total" = some (.number (.int 2)) ∧
      after.store.documents "order" = [document, .object [("id", .string "o2")]]) ∧
    ∃ calls after,
      (ofLockedOrders.create "order" (.object []) 5).run ⟨none, some "disk full"⟩ twoOrders =
        (after, ⟨.error (.store "disk full"),
          .log ⟨.debug, "WRITE_CREATE_BEGIN", some "order", none, none, []⟩ ::
            .hook (.before 0) :: .hook (.before 1) :: calls ++
            [.log ⟨.error, "WRITE_CREATE_FAILED", some "order", none, some "disk full", []⟩]⟩) ∧
      (∀ a ∈ calls, a.isCall) ∧
      after.store.documents "order" = twoOrders.store.documents "order" := by
  have hagrees : ∀ event : WriteEvent, event.operation ≠ .delete →
      ofLockedOrders.Agrees event := by
    intro event hkind i hi
    simp only [ofLockedOrders, List.mem_cons, List.not_mem_nil, or_false] at hi
    rcases hi with rfl | rfl
    · rfl
    · exact if_neg hkind
  refine ⟨?_, ?_, ?_⟩
  · have hkeeps := (keepsProtocol_and_logged ofLockedOrders .none twoOrders 5
      (.delete "order" "o1")).1
    have hruns := hkeeps.refused _ [⟨"audit", fun _ => none⟩] _ [] "orders are kept" rfl rfl
      (by simp) rfl
    exact hruns
  · obtain ⟨calls, document, after, hruns, hcalls, changes, old, new, front, back, hpayload, rfl,
        hfinds, hnew, -, hbecomes, -⟩ :=
      (keepsProtocol_and_logged ofLockedOrders .none twoOrders 5
        (.update "order" "o1" (.object [("total", .number (.int 2))]))).1.succeeded _ rfl
        (hagrees _ (by decide)) rfl fun id hid hlacks =>
          hlacks (.object [("id", .string "o1"), ("total", .number (.int 1))])
            List.mem_cons_self (congrArg (Option.map Value.string) hid)
    have hfirst : twoOrders.store.Finds "order" "id" "o1" []
        (.object [("id", .string "o1"), ("total", .number (.int 1))])
        [.object [("id", .string "o2")]] := ⟨rfl, by simp, rfl⟩
    obtain ⟨rfl, hold, rfl⟩ := hfirst.unique hfinds
    obtain rfl := Value.object.inj hold
    obtain rfl := Value.object.inj hpayload
    exact ⟨calls, .object new, after, hruns, hcalls, hnew "id", hnew "total", hbecomes.1⟩
  · obtain ⟨calls, message, after, herror, hruns, hcalls, hafter⟩ :=
      (keepsProtocol_and_logged ofLockedOrders ⟨none, some "disk full"⟩ twoOrders 5
        (.create "order" (.object []))).1.failed _ _ rfl (hagrees _ (by decide)) rfl
    obtain rfl : message = "disk full" := by
      rcases herror with h | h
      · cases h
      · exact (WriteError.store.inj h).symm
    refine ⟨calls, after, hruns, hcalls, ?_⟩
    rcases hafter with rfl | ⟨-, -, -, -, hstore, -⟩
    · rfl
    · rw [hstore]

end Writer

end JoinPlan
