import JoinPlan.Log.Record
import JoinPlan.Store.Basic
import JoinPlan.Write.Counters
import JoinPlan.Write.Error
import JoinPlan.Write.Interceptor

/-!
# Writes as scripts

A write talks to the log, to its interceptors, and to the sequences and the store that
all writes share, and other writes may come in between. So a write is a script: its next
action, and what to do with the answer. `Script.step` takes the first action on shared
storage, and several scripts interleave by taking steps in any order. `Script.run` takes
all steps in a row and keeps the actions, so `run_of_step` says that a run is a first
step and the run of the rest.

A sequence or a store that is out of order answers every call with its message and
changes nothing.
-/

namespace JoinPlan

/-- What writes share. -/
structure Storage where
  store : Store
  counters : Counters

/-- The messages of a sequence and a store that are out of order. -/
structure Faults where
  sequence : Option String
  store : Option String
deriving DecidableEq, Repr

/-- Nothing is out of order. -/
def Faults.none : Faults := ⟨.none, .none⟩

/-- A call to what writes share. -/
inductive Call where
  | advance (sequence : String)
  | insert (collection : String) (document : Value)
  | patch (collection field id : String) (changes : Members)
  | remove (collection field id : String)

/-- What a call gives: the next number, nothing, or the document that was found. -/
abbrev Call.Answer : Call → Type
  | .advance _ => Nat
  | .insert .. => Unit
  | .patch .. => Option Value
  | .remove .. => Option Value

/-- The message of whom a call goes to, if that is out of order. -/
def Faults.message? (faults : Faults) : Call → Option String
  | .advance _ => faults.sequence
  | _ => faults.store

namespace Storage

/-- The storage before any write. -/
def empty : Storage := ⟨.empty, .empty⟩

/-- The storage after a change that may find no document, and the document. -/
def settle (storage : Storage) : Option (Value × Store) → Option Value × Storage
  | some (document, store) => (some document, { storage with store })
  | none => (none, storage)

/-- What a call gives, and the storage after it. -/
def serve (storage : Storage) : (c : Call) → c.Answer × Storage
  | .advance sequence =>
    let (number, counters) := storage.counters.advance sequence
    (number, { storage with counters })
  | .insert collection document =>
    ((), { storage with store := storage.store.insert collection document })
  | .patch collection field id changes =>
    storage.settle (storage.store.patch collection field (.string id) changes)
  | .remove collection field id =>
    storage.settle (storage.store.remove collection field (.string id))

/-- The answer to a call, and the storage after it. -/
def answer (storage : Storage) (faults : Faults) (c : Call) :
    Except String c.Answer × Storage :=
  match faults.message? c with
  | some message => (.error message, storage)
  | none =>
    let (given, storage) := storage.serve c
    (.ok given, storage)

end Storage

/-- Something that a write does, with the answer that it got. -/
inductive Action where
  | log (record : Log.Record)
  | hook (h : HookCall)
  | call (c : Call) (answer : Except String c.Answer)

namespace Action

/-- The call of an interceptor that an action is. -/
def hook? : Action → Option HookCall
  | .hook h => some h
  | _ => none

/-- The record that an action puts into the log. -/
def record? : Action → Option Log.Record
  | .log record => some record
  | _ => none

/-- Whether an action is a call to what writes share. -/
def isCall : Action → Bool
  | .call .. => true
  | _ => false

end Action

/-- What a write ends with: its result and what it did. -/
structure WriteOutcome where
  result : Except WriteError Value
  actions : List Action

namespace WriteOutcome

/-- The outcome of a write that did something before. -/
def after (actions : List Action) (outcome : WriteOutcome) : WriteOutcome :=
  { outcome with actions := actions ++ outcome.actions }

/-- The calls of interceptors. -/
def hooks (outcome : WriteOutcome) : List HookCall := outcome.actions.filterMap Action.hook?

/-- The log. -/
def records (outcome : WriteOutcome) : List Log.Record := outcome.actions.filterMap Action.record?

end WriteOutcome

/-- What a write still has to do. -/
inductive Script where
  | done (result : Except WriteError Value)
  | log (record : Log.Record) (next : Script)
  | hook (h : HookCall) (next : Script)
  | call (c : Call) (next : Except String c.Answer → Script)

namespace Script

/-- The first action of a script, the storage after it, and the rest of the script.
Nothing is left to do in a finished one. -/
def step (faults : Faults) (storage : Storage) : Script → Option (Action × Storage × Script)
  | .done _ => none
  | .log record next => some (.log record, storage, next)
  | .hook h next => some (.hook h, storage, next)
  | .call c next =>
    let (answer, storage) := storage.answer faults c
    some (.call c answer, storage, next answer)

/-- The storage and the outcome after all actions of a script. -/
def run (faults : Faults) (storage : Storage) : Script → Storage × WriteOutcome
  | .done result => (storage, ⟨result, []⟩)
  | .log record next =>
    let (storage, outcome) := next.run faults storage
    (storage, outcome.after [.log record])
  | .hook h next =>
    let (storage, outcome) := next.run faults storage
    (storage, outcome.after [.hook h])
  | .call c next =>
    let (answer, storage) := storage.answer faults c
    let (storage, outcome) := (next answer).run faults storage
    (storage, outcome.after [.call c answer])

/-- Running a script is taking its first action and running the rest. -/
theorem run_of_step {faults : Faults} {storage storage' : Storage} {script rest : Script}
    {action : Action} (h : script.step faults storage = some (action, storage', rest)) :
    script.run faults storage =
      ((rest.run faults storage').1, (rest.run faults storage').2.after [action]) := by
  cases script with
  | done result => cases h
  | log record next =>
    cases h
    rfl
  | hook h next =>
    cases h
    rfl
  | call c next =>
    cases h
    rfl

end Script

end JoinPlan
