import JoinPlan.Plan.Error
import JoinPlan.Plan.Expansion

/-!
# Planning a request

A request for a registered type becomes criteria on the type's own documents, the
expansion into joins, sort keys and a page. A request for one document ignores its
filter. Sort keys that name a relation or an extra path are rewritten to where the
joined value stands. The plan also tells which schemas the client does not hold.
-/

namespace JoinPlan

/-- What planning gives: a plan or an error, and the log. -/
structure Planning where
  result : Except PlanError Plan
  records : List Log.Record

namespace SearchRequest

/-- The filter that counts: none for a request for one document. -/
def effectiveFilter (request : SearchRequest) : Filter :=
  if request.id.isSome then .empty else request.filter

/-- The criteria on the documents of the requested type. -/
def criteria (request : SearchRequest) (schema : Schema) : Except CastFailure Condition :=
  match request.id with
  | some id => .ok (.field schema.idField (.equals (.string id)))
  | none => Condition.ofFilter schema request.filter

end SearchRequest

namespace SortKey

/-- The field that a sort key names and the direction its mark asks for. -/
def split (key : String) : String × Direction :=
  match key.toList with
  | '<' :: rest => (Text.trim (String.ofList rest), .descending)
  | '>' :: rest => (Text.trim (String.ofList rest), .ascending)
  | _ => (Text.trim key, .ascending)

/-- Where the value of a relation stands: at its traversal key on the joined
document, if it has one and was joined. -/
def relationPath? (schema : Schema) (builder : Builder) (field : String) : Option String := do
  let relation ← schema.relation? field
  let key ← relation.traversalKey
  let asName := relationAlias relation.target field
  if builder.hasAlias asName then some (asName ++ "." ++ key) else none

/-- The path to sort by for a field: a relation's, an extra path's, or its own. -/
def pathFor (schema : Schema) (draft : Draft) (field : String) : String :=
  ((relationPath? schema draft.builder field).or
    ((draft.extraFields.find? (·.path = field)).map (·.valuePath))).getD field

/-- The sort key of one written key; a key without a field is dropped. -/
def ofText? (schema : Schema) (draft : Draft) (key : String) : Option SortKey :=
  let (field, direction) := split key
  if field.isEmpty then none else some ⟨pathFor schema draft field, direction⟩

end SortKey

namespace Plan

/-- The touched schemas that the client does not hold in the registered version. -/
def touchedSchemas? (registry : Registry) (held : CachedSchemas) (touched : List String) :
    List SchemaRef :=
  (touched.filter fun type => !held.holdsCurrent registry type).filterMap fun type =>
    (registry.version? type).map fun version => ⟨type, version⟩

/-- The plan of a request from its criteria and the finished draft. -/
def ofDraft (registry : Registry) (schema : Schema) (request : SearchRequest)
    (criteria : Condition) (draft : Draft) : Plan where
  collection := schema.name
  criteria := criteria
  expansion := draft.builder.stages
  sort := request.sort.filterMap (SortKey.ofText? schema draft)
  page := request.page
  extraFields := draft.extraFields
  touchedSchemas := touchedSchemas? registry request.cachedSchemas draft.touched
  «include» := request.include.filter fun name => (schema.relation? name).isSome

/-- The planning of a request. -/
def ofRequest (registry : Registry) (options : Options) (request : SearchRequest) : Planning :=
  match registry.get? request.type with
  | none => ⟨.error (.unknownType request.type), []⟩
  | some schema =>
    match request.criteria schema with
    | .error failure => ⟨.error (.castFailed failure), []⟩
    | .ok criteria =>
      let context : Context := ⟨registry, options, schema, request.effectiveFilter⟩
      match context.expand (Context.pathEntries schema request) with
      | .error refusal => ⟨.error (.castFailed refusal.failure), refusal.records⟩
      | .ok draft => ⟨.ok (ofDraft registry schema request criteria draft), draft.records⟩

end Plan

end JoinPlan
