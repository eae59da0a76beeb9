import JoinPlan.Pipeline.Stage
import JoinPlan.Plan.Request

/-!
# Plans

A plan says which collection to read, which of its documents are meant, how they
are joined with others, and how the result is sorted and cut. It also describes the
fields that extra paths lead to and the schemas the result refers to.
-/

namespace JoinPlan

/-- A field that an extra path leads to. -/
structure ExtraField where
  asName : String
  field : String
  title : Option String
  table : String
  path : String
  inheritedBy : Option String
deriving DecidableEq, Repr

namespace ExtraField

/-- Where the value stands in a result document. -/
def valuePath (f : ExtraField) : String := f.asName ++ "." ++ f.field

/-- The description as JSON. -/
def toJson (f : ExtraField) : Value :=
  .object [
    ("alias", .string f.asName),
    ("field", .string f.field),
    ("title", .ofText? f.title),
    ("table", .string f.table),
    ("path", .string f.path),
    ("inherited_by", .ofText? f.inheritedBy)]

end ExtraField

/-- A schema by name and version. -/
structure SchemaRef where
  name : String
  version : String
deriving DecidableEq, Repr

namespace SchemaRef

/-- The reference as text. -/
def text (s : SchemaRef) : String := s!"{s.name}@{s.version}"

/-- The reference as JSON. -/
def toJson (s : SchemaRef) : Value :=
  .object [("name", .string s.name), ("version", .string s.version)]

end SchemaRef

/-- A plan for one request. -/
structure Plan where
  collection : String
  criteria : Condition
  expansion : List Stage
  sort : List SortKey
  page : Page
  extraFields : List ExtraField
  touchedSchemas : List SchemaRef
  «include» : List String

namespace Plan

/-- The whole pipeline: criteria, expansion, sorting and paging. -/
def pipeline (plan : Plan) : List Stage :=
  .filter plan.criteria :: plan.expansion
    ++ (if plan.sort.isEmpty then [] else [.sort plan.sort])
    ++ (plan.page.offset.map Stage.skip).toList
    ++ (plan.page.limit.map Stage.limit).toList

/-- The pipeline as query documents. -/
def pipelineDocuments (plan : Plan) : List Value := plan.pipeline.map Stage.toDocument

/-- The joins of the expansion. -/
def joins (plan : Plan) : List Join :=
  plan.expansion.filterMap fun
    | .join join => some join
    | _ => none

end Plan

end JoinPlan
