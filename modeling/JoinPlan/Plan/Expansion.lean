import JoinPlan.Filter.Criteria
import JoinPlan.Log.Record
import JoinPlan.OrderedSet
import JoinPlan.Pipeline.Alias
import JoinPlan.Pipeline.Builder
import JoinPlan.Plan.Basic
import JoinPlan.Plan.ExtraPath

/-!
# Expanding a request into joins

The relations of the requested type are joined first, in the order of their names,
then the extra paths in the order of their entries. Each step adds to a draft. A
filter on a joined document becomes a filter stage right behind the flattening of
its join.

A relation to an excluded type is passed over, one to an unregistered type and a
path that leads nowhere are logged and leave the draft as it was. Only a filter
value that cannot be cast ends the expansion; the log so far is kept with it.
-/

namespace JoinPlan

/-- What planning has gathered so far. -/
structure Draft where
  builder : Builder
  touched : List String
  extraFields : List ExtraField
  records : List Log.Record

/-- A filter value that could not be cast, and the log up to it. -/
structure Refusal where
  failure : CastFailure
  records : List Log.Record

/-- What a request is planned against. -/
structure Context where
  registry : Registry
  options : Options
  schema : Schema
  filter : Filter

namespace FilterValue

/-- The alternatives of a filter value that may be missing, if there are any. -/
def alternatives? (value : Option FilterValue) : Option (List String) :=
  (value.bind tokens?).filter (!·.isEmpty)

end FilterValue

namespace Draft

/-- The draft before any join: the requested type alone is touched. -/
def start (schema : Schema) : Draft := ⟨.empty, [schema.name], [], []⟩

/-- The draft with a log record. -/
def note (d : Draft) (record : Log.Record) : Draft := { d with records := d.records ++ [record] }

/-- The draft with joins and the types they reach. -/
def withJoins (d : Draft) (joins : List (Join × Flatten)) : Draft :=
  { d with
    builder := joins.foldl (fun b (join, flatten) => b.pushJoin join flatten) d.builder
    touched := insertNew d.touched .back (joins.map fun (join, _) => join.source) }

/-- The draft with a filter on a field of a joined document, when there are tokens
for it. The field's type is that of the joined schema. `owner` names the filter in
an error. -/
def withFilter (d : Draft) (target : Option Schema) (asName field owner : String)
    (tokens : Option (List String)) : Except Refusal Draft :=
  match tokens with
  | none => .ok d
  | some tokens =>
    let type := (target.bind (·.attribute? field)).bind (·.scalarType?)
    match Condition.ofTokens (asName ++ "." ++ field) tokens type with
    | .ok condition =>
      .ok { d with builder := d.builder.insertAfterFlatten asName (.filter condition) }
    | .error failure => .error ⟨failure.orField owner, d.records⟩

end Draft

namespace Context

/-! ## Relations of the requested type -/

/-- The record of a relation to an unregistered type. -/
def skipped (c : Context) (name target : String) : Log.Record :=
  .ofEvent .relationSkipped
    [("attribute", name), ("reason", "invalid_form"), ("target", target), ("type", c.schema.name)]

/-- The join of a relation of the requested type, with the positions recorded. -/
def relationJoin (name : String) (relation : Relation) (target : Schema) : Join × Flatten :=
  let asName := relationAlias relation.target name
  (⟨relation.target, referencePath [] name, target.idField, asName⟩,
    (Flatten.preserving asName).withIndex (asName ++ "_index"))

/-- The draft with a relation joined and, where it has a traversal key, filtered. -/
def addRelation (c : Context) (d : Draft) (entry : String × Relation) : Except Refusal Draft :=
  let (name, relation) := entry
  if c.options.excludes relation.target then .ok d
  else
    match c.registry.get? relation.target with
    | none => .ok (d.note (c.skipped name relation.target))
    | some target =>
      let joined := d.withJoins [relationJoin name relation target]
      match relation.traversalKey with
      | none => .ok joined
      | some key =>
        joined.withFilter target (relationAlias relation.target name) key name
          (FilterValue.alternatives? (c.filter.get? name))

/-! ## Extra paths -/

/-- The entries to follow: declared and requested ones unless the request wants none,
then the paths of inherited attributes. -/
def pathEntries (schema : Schema) (request : SearchRequest) : List String :=
  let asked := if request.noExtra then [] else schema.extraPaths ++ request.extraPaths
  insertNew [] .back (asked ++ schema.inheritedPaths.map Prod.snd)

/-- The attribute that inherits its value along a path; the last by name. -/
def inheritor? (schema : Schema) (path : String) : Option String :=
  (schema.inheritedPaths.reverse.find? (·.2 = path)).map Prod.fst

/-- The record of a path that leads nowhere. -/
def dropped (c : Context) (entry : String) (route : Route) : Log.Record :=
  .ofEvent .pathDropped
    [("field", (route.deadEnd.map DeadEnd.field).getD ""), ("path", entry),
      ("reason", (route.deadEnd.map DeadEnd.reason).getD ""), ("type", c.schema.name)]

/-- The draft with a field at the end of a joined path. A filter for it stands under
its path or under the whole entry. -/
def addField (c : Context) (entry : String) (path : ExtraPath) (asName table : String)
    (d : Draft) (field : LeafField) : Except Refusal Draft := do
  let fieldPath := path.pathTo field.name
  let tokens := FilterValue.alternatives? ((c.filter.get? fieldPath).or (c.filter.get? entry))
  let filtered ← d.withFilter (c.registry.get? table) asName field.name fieldPath tokens
  let description : ExtraField :=
    ⟨asName, field.name, field.title, table, fieldPath, inheritor? c.schema fieldPath⟩
  return { filtered with extraFields := insertNew filtered.extraFields .back [description] }

/-- The draft with the path of an entry joined and its fields described. -/
def addPath (c : Context) (d : Draft) (entry : String) : Except Refusal Draft :=
  match ExtraPath.parse entry with
  | none => .ok d
  | some path =>
    let route := Route.resolve c.registry c.options c.schema.name path.segments
    if route.isComplete then
      let asName := pathAlias (route.hops.map (·.field))
      path.fields.foldlM (c.addField entry path asName (route.finalTarget?.getD ""))
        (d.withJoins route.joins)
    else .ok (d.note (c.dropped entry route))

/-- The draft of all relations and paths. -/
def expand (c : Context) (entries : List String) : Except Refusal Draft := do
  let related ← c.schema.relations.foldlM c.addRelation (Draft.start c.schema)
  entries.foldlM c.addPath related

end Context

end JoinPlan
