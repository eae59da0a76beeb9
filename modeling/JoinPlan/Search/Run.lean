import JoinPlan.Plan.Planning
import JoinPlan.Log.Scope
import JoinPlan.Json.Printer
import JoinPlan.Search.Error
import JoinPlan.Store.Basic

/-!
# Searching

A search plans its request and asks a source of documents for two things: the
documents that the whole pipeline gives, and the number of documents that the
criteria hold of. It succeeds when both are there. The log of a search begins with
one record and ends with one verdict, which is the same as that of the result.
-/

namespace JoinPlan

/-- A source of documents: how it answers a pipeline and a count, or fails with a
message. -/
structure Source where
  fetch : String → List Stage → Except String (List Value)
  count : String → Condition → Except String Nat

/-- A store as a source, which never fails. -/
def Store.source [PatternLimit] (store : Store) : Source where
  fetch := fun collection pipeline => .ok (store.run collection pipeline)
  count := fun collection condition => .ok (store.count collection condition)

/-- What a search found. -/
structure SearchResult where
  documents : List Value
  total : Nat
  touchedSchemas : List SchemaRef
  extraFields : List ExtraField
  «include» : List String

namespace SearchResult

/-- The result as JSON. -/
def toJson (r : SearchResult) : Value :=
  .object [
    ("documents", .array r.documents),
    ("total", .ofInt r.total),
    ("touched_schemas", .array (r.touchedSchemas.map SchemaRef.toJson)),
    ("extra_fields", .array (r.extraFields.map ExtraField.toJson)),
    ("include", .ofTexts r.include)]

end SearchResult

/-- One document that was asked for by its identifier. -/
structure FoundDocument where
  document : Value
  touchedSchemas : List SchemaRef
  extraFields : List ExtraField

/-- What a search ends with, and its log. -/
structure Searching (α : Type) where
  result : Except SearchError α
  records : List Log.Record

namespace Source

/-- The scope of a search. -/
def scope (type : String) : Log.Scope := ⟨"SEARCH", [("type", type)]⟩

/-- The record of a refused request. -/
def refusedRecord (type : String) (e : PlanError) : Log.Record :=
  .ofEvent .searchRejected [("code", e.code), ("reason", e.reason), ("type", type)]

/-- The records of a plan. -/
def plannedRecords (options : Options) (plan : Plan) : List Log.Record :=
  .ofEvent .searchPlanned
      [("joins", toString plan.joins.length), ("stages", toString plan.pipeline.length),
        ("type", plan.collection)]
    :: (if options.logPipelines then
          [.make .debug Log.Event.pipelineCompiled.name
            [("pipeline", (Value.array plan.pipelineDocuments).compact)]]
        else [])

/-- The record of a failed store. -/
def failedRecord (type message : String) : Log.Record :=
  .ofEvent .searchFailed [("reason", message), ("type", type)]

/-- The record of a result. -/
def executedRecord (type : String) (returned total : Nat) : Log.Record :=
  .ofEvent .searchExecuted
    [("returned", toString returned), ("total", toString total), ("type", type)]

/-- The documents of a plan and their total. Where both fail, the failure of the
documents is told. -/
def execute (source : Source) (plan : Plan) : Except String (List Value × Nat) := do
  let documents ← source.fetch plan.collection plan.pipeline
  let total ← source.count plan.collection plan.criteria
  return (documents, total)

/-- A search, which took a number of milliseconds. -/
def search (source : Source) (registry : Registry) (options : Options) (request : SearchRequest)
    (elapsed : Nat) : Searching SearchResult :=
  let scope := scope request.type
  let planning := Plan.ofRequest registry options request
  let before := scope.began :: planning.records
  match planning.result with
  | .error e =>
    let error := SearchError.refused e
    ⟨.error error, before ++ [refusedRecord request.type e, scope.failed error.message]⟩
  | .ok plan =>
    let planned := before ++ plannedRecords options plan
    match source.execute plan with
    | .error message =>
      ⟨.error (.store message),
        planned ++ [failedRecord plan.collection message, scope.failed message]⟩
    | .ok (documents, total) =>
      ⟨.ok {
          documents
          total
          touchedSchemas := plan.touchedSchemas
          extraFields := plan.extraFields
          «include» := plan.include },
        planned ++ [executedRecord plan.collection documents.length total,
          scope.completed [("returned", toString documents.length)] elapsed]⟩

/-- The search for one document: the first that has the identifier. Declared extra
paths are not followed. -/
def find (source : Source) (registry : Registry) (options : Options) (type id : String)
    (elapsed : Nat) : Searching FoundDocument :=
  let request := { SearchRequest.ofId type id with noExtra := true }
  let searching := source.search registry options request elapsed
  { searching with
    result := do
      let result ← searching.result
      match result.documents with
      | [] => throw (.notFound type id)
      | document :: _ => return ⟨document, result.touchedSchemas, result.extraFields⟩ }

end Source

end JoinPlan
