import JoinPlan.Filter.Value
import JoinPlan.Json.Typed
import JoinPlan.Schema.Registry
import JoinPlan.Text.Split

/-!
# Search requests

A request names a resource type and may ask for one document by its identifier, or
filter, sort and page through them; it may add relation paths to follow and tell
which schema versions the client holds. Every part has a default, so an empty object is
a request, and a blank text is none.
-/

namespace JoinPlan

/-- The part of the results that is asked for. -/
structure Page where
  offset : Option Nat
  limit : Option Nat
deriving DecidableEq, Repr

/-- The schema versions that a client holds, names with versions. -/
structure CachedSchemas where
  entries : List (String × String)
deriving DecidableEq, Repr

namespace CachedSchemas

/-- The entry of one part of a header; a part without `@` or without a name is none. -/
def entry? (part : String) : Option (String × String) :=
  (Text.cutAtFirst '@' (Text.trim part)).filter (!·.1.isEmpty)

/-- The versions of a header: parts `name@version` with commas between them. -/
def parse (header : String) : CachedSchemas := ⟨(Text.split ',' header).filterMap entry?⟩

/-- The version held of a type, by its first entry. -/
def version? (held : CachedSchemas) (type : String) : Option String := held.entries.lookup type

/-- Whether the version held of a type is the registered one. -/
def holdsCurrent (held : CachedSchemas) (registry : Registry) (type : String) : Bool :=
  match held.version? type, registry.version? type with
  | some version, some current => version == current
  | _, _ => false

/-- The versions as a header. -/
def header (held : CachedSchemas) : String :=
  ",".intercalate (held.entries.map fun (name, version) => s!"{name}@{version}")

end CachedSchemas

/-- A search request. -/
structure SearchRequest where
  type : String
  id : Option String
  filter : Filter
  sort : List String
  page : Page
  «include» : List String
  extraPaths : List String
  noExtra : Bool
  cachedSchemas : CachedSchemas

/-- Why a text is no request. -/
inductive RequestFault where
  | blank
  | malformed
deriving DecidableEq, Repr

namespace SearchRequest

/-- The request for all documents of a type. -/
def ofType (type : String) : SearchRequest :=
  ⟨type, none, .empty, [], ⟨none, none⟩, [], [], false, ⟨[]⟩⟩

/-- The request for one document. -/
def ofId (type id : String) : SearchRequest := { ofType type with id := some id }

/-- How deep a filter value may nest in a text: it stands inside the request and its filter. -/
def filterValueLimit : Nat := Node.nestingLimit - 2

/-- An entry of a filter, whose value nests within a limit. -/
def filterMember? (limit : Nat) (member : Option String × Node) :
    Option (String × FilterValue) := do
  let value ← member.2.toValueWithin limit
  return (← member.1, ← FilterValue.ofJson? value)

/-- A filter by name; of a repeated name the last entry counts. -/
def filter? (limit : Nat) : Node → Option Filter
  | .object members => (members.mapM (filterMember? limit)).map .ofList
  | _ => none

/-- A page. -/
def page? (node : Node) : Option Page := do
  let fields ← node.typedFields? false ["offset", "limit"]
  let bound (name : String) := Node.orDefault? fields name none (Node.nullable? Node.natural?)
  return ⟨← bound "offset", ← bound "limit"⟩

/-- The request that a node stands for, if its filter values nest within a limit. -/
def ofNodeWithin? (limit : Nat) (node : Node) : Option SearchRequest := do
  let fields ← node.typedFields? false
    ["type", "id", "filter", "sort", "page", "include", "extra_paths", "no_extra",
      "cached_schemas"]
  return {
    type := ← Node.orDefault? fields "type" "" Node.text?
    id := ← Node.orDefault? fields "id" none (Node.nullable? Node.text?)
    filter := ← Node.orDefault? fields "filter" .empty (filter? limit)
    sort := ← Node.orDefault? fields "sort" [] Node.texts?
    page := ← Node.orDefault? fields "page" ⟨none, none⟩ page?
    «include» := ← Node.orDefault? fields "include" [] Node.texts?
    extraPaths := ← Node.orDefault? fields "extra_paths" [] Node.texts?
    noExtra := ← Node.orDefault? fields "no_extra" false Node.flag?
    cachedSchemas := ← Node.orDefault? fields "cached_schemas" ⟨[]⟩ fun node =>
      node.text?.map CachedSchemas.parse }

/-- The request that the node of a text stands for. -/
def ofNode? (node : Node) : Option SearchRequest := ofNodeWithin? filterValueLimit node

/-- The request that a JSON value stands for, however deep it nests. -/
def ofJson? (v : Value) : Option SearchRequest := ofNodeWithin? v.depth v.toNode

/-- The request of a text. -/
def read (text : String) : Except RequestFault SearchRequest :=
  if Text.isBlankText text then .error .blank
  else
    match (Node.read text).bind ofNode? with
    | some request => .ok request
    | none => .error .malformed

/-- A bound of a page as JSON. -/
def boundToJson : Option Nat → Value
  | some n => .ofInt n
  | none => .null

/-- The request as JSON. -/
def toJson (r : SearchRequest) : Value :=
  .object [
    ("type", .string r.type),
    ("id", .ofText? r.id),
    ("filter", .object (r.filter.entries.map fun (name, value) => (name, value.toJson))),
    ("sort", .ofTexts r.sort),
    ("page", .object [("offset", boundToJson r.page.offset), ("limit", boundToJson r.page.limit)]),
    ("include", .ofTexts r.include),
    ("extra_paths", .ofTexts r.extraPaths),
    ("no_extra", .bool r.noExtra),
    ("cached_schemas", .string r.cachedSchemas.header)]

end SearchRequest

end JoinPlan
