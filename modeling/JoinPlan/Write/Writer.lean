import JoinPlan.Log.Scope
import JoinPlan.Schema.Basic
import JoinPlan.Write.Script

/-!
# Writing resources

A writer creates, changes and deletes documents of a resource type. The order is
fixed: the interceptors are asked, a new document gets the next number of its type,
the store is written, and the interceptors are told. A write that is refused or whose
document is no object makes no call at all.
-/

namespace JoinPlan

/-- The field that takes the number of a created document. -/
def numberField : String := "ID"

/-- The name of the sequence that numbers a type's documents. -/
def sequenceName (type : String) : String := s!"{type}_{numberField}"

/-- Who writes: the interceptors, and the field by which documents are found. -/
structure Writer where
  chain : Chain
  idField : String

namespace Writer

/-- The writer that finds documents by their `id`. -/
def make (chain : Chain) : Writer := ⟨chain, referenceKey⟩

/-- The scope of a write. -/
def scope (event : WriteEvent) : Log.Scope :=
  let name :=
    match event.operation with
    | .create => "WRITE_CREATE"
    | .update => "WRITE_UPDATE"
    | .delete => "WRITE_DELETE"
  ⟨name, (event.id.map fun id => ("id", id)).toList ++ [("type", event.type)]⟩

/-- The record of a refused write. -/
def refusedRecord (event : WriteEvent) (interceptor reason : String) : Log.Record :=
  .ofEvent .writeRejected
    [("interceptor", interceptor), ("op", event.operation.name), ("reason", reason),
      ("type", event.type)]

/-- The record of a write that happened. -/
def committedRecord (event : WriteEvent) (id : String) : Log.Record :=
  .ofEvent .writeCommitted [("id", id), ("op", event.operation.name), ("type", event.type)]

/-- The end of a write that failed. -/
def fail (event : WriteEvent) (error : WriteError) (reason : String) : Script :=
  .log ((scope event).failed reason) (.done (.error error))

/-- The end of a write that an interceptor refused. -/
def refuse (event : WriteEvent) (interceptor : Interceptor) (reason : String) : Script :=
  let error := WriteError.refused interceptor.name reason
  .log (refusedRecord event interceptor.name reason) (fail event error error.message)

/-- Asks the interceptors of a chain in order, the first of them at a position, and goes
on when none refuses. -/
def ask (event : WriteEvent) (next : Script) : Nat → Chain → Script
  | _, [] => next
  | position, interceptor :: rest =>
    .hook (.before position) <|
      match interceptor.refusal event with
      | some reason => refuse event interceptor reason
      | none => ask event next (position + 1) rest

/-- Tells the interceptors of a chain in order, the first of them at a position. -/
def tell (document : Value) (next : Script) : Nat → Chain → Script
  | _, [] => next
  | position, _ :: rest => .hook (.after position document) (tell document next (position + 1) rest)

/-- A write that goes on as `calls` when no interceptor refuses it. -/
def guarded (w : Writer) (event : WriteEvent) (calls : Script) : Script :=
  .log (scope event).began (ask event calls 0 w.chain)

/-- A write that makes no call, for its payload is no object. -/
def invalid (event : WriteEvent) (error : WriteError) : Script :=
  .log (scope event).began (fail event error error.message)

/-- The end of a write that happened, in a number of milliseconds. -/
def commit (w : Writer) (event : WriteEvent) (id : String) (document : Value) (elapsed : Nat) :
    Script :=
  tell document
    (.log (committedRecord event id)
      (.log ((scope event).completed [] elapsed) (.done (.ok document))))
    0 w.chain

/-- The creation of a document. It gets the next number of its type, whatever stood
in that field. -/
def create (w : Writer) (type : String) (document : Value) (elapsed : Nat) : Script :=
  match document with
  | .object members =>
    let event : WriteEvent := ⟨.create, type, none, some members⟩
    w.guarded event <|
      .call (.advance (sequenceName type)) fun
        | .error message => fail event (.sequence message) message
        | .ok number =>
          let stored := Value.object (Members.insert members numberField (.ofInt number))
          .call (.insert type stored) fun
            | .error message => fail event (.store message) message
            | .ok () => w.commit event (toString number) stored elapsed
  | _ =>
    invalid ⟨.create, type, none, none⟩
      (.invalidDocument s!"{type} document must be a JSON object")

/-- The end of a write to a document that was looked for. -/
def settled (w : Writer) (event : WriteEvent) (id : String) (elapsed : Nat) :
    Except String (Option Value) → Script
  | .error message => fail event (.store message) (WriteError.store message).message
  | .ok none =>
    let error := WriteError.notFound event.type id
    fail event error error.message
  | .ok (some document) => w.commit event id document elapsed

/-- The change of some members of a document. -/
def update (w : Writer) (type id : String) (patch : Value) (elapsed : Nat) : Script :=
  match patch with
  | .object changes =>
    let event : WriteEvent := ⟨.update, type, some id, some changes⟩
    w.guarded event (.call (.patch type w.idField id changes) (w.settled event id elapsed))
  | _ =>
    invalid ⟨.update, type, some id, none⟩
      (.invalidDocument s!"{type} patch must be a JSON object")

/-- The deletion of a document. -/
def delete (w : Writer) (type id : String) (elapsed : Nat) : Script :=
  let event : WriteEvent := ⟨.delete, type, some id, none⟩
  w.guarded event (.call (.remove type w.idField id) (w.settled event id elapsed))

end Writer

end JoinPlan
