import JoinPlan.Options
import JoinPlan.Schema.Registry

/-!
# Routes

A route is a path of relations followed from one resource type to the next. It
goes as far as the segments name relations to registered types, and records where
and why it stopped. A route is complete when it has a segment and followed all of
them.
-/

namespace JoinPlan

/-- One relation followed: the attribute, the type it leads to, the key and the
identifier field of that type. -/
structure Hop where
  field : String
  target : String
  traversalKey : String
  foreignField : String
deriving DecidableEq, Repr

/-- Why a segment could not be followed: the attribute is missing or no relation,
or it is a relation to an unregistered type. -/
inductive DeadEnd where
  | invalidField (field : String)
  | invalidForm (field target : String)
deriving DecidableEq, Repr

namespace DeadEnd

/-- The attribute that could not be followed. -/
def field : DeadEnd → String
  | .invalidField field | .invalidForm field _ => field

/-- The type it would have led to; none is known of an attribute that is no relation. -/
def target : DeadEnd → String
  | .invalidField _ => ""
  | .invalidForm _ target => target

/-- The reason in one word. -/
def reason : DeadEnd → String
  | .invalidField _ => "invalid_field"
  | .invalidForm .. => "invalid_form"

end DeadEnd

/-- The segments of a path, the relations followed, and where the route stopped. -/
structure Route where
  segments : List String
  hops : List Hop
  deadEnd : Option DeadEnd
deriving DecidableEq, Repr

namespace Route

/-- The relation that a field is on a schema that may be missing, and the schema it
leads to. -/
def follow (registry : Registry) (schema : Option Schema) (field : String) :
    Except DeadEnd (Hop × Schema) :=
  match schema.bind (·.relation? field) with
  | none => .error (.invalidField field)
  | some relation =>
    match registry.get? relation.target with
    | none => .error (.invalidForm field relation.target)
    | some target =>
      .ok (⟨field, relation.target, relation.keyOrDefault, target.idField⟩, target)

/-- The relations followed from a schema, and where that stopped. -/
def walk (registry : Registry) (options : Options) (schema : Option Schema) :
    List String → List Hop × Option DeadEnd
  | [] => ([], none)
  | segment :: rest =>
    match follow registry schema (options.fieldOf segment) with
    | .error deadEnd => ([], some deadEnd)
    | .ok (hop, target) =>
      let (hops, deadEnd) := walk registry options (some target) rest
      (hop :: hops, deadEnd)

/-- The route of a path from a resource type. -/
def resolve (registry : Registry) (options : Options) (base : String) (segments : List String) :
    Route :=
  let (hops, deadEnd) := walk registry options (registry.get? base) segments
  ⟨segments, hops, deadEnd⟩

/-- Whether there are segments and all of them were followed. -/
def isComplete (route : Route) : Bool := !route.segments.isEmpty && route.deadEnd.isNone

/-- The type that the last segment tried leads to. -/
def finalTarget? (route : Route) : Option String :=
  match route.deadEnd with
  | some deadEnd => some deadEnd.target
  | none => route.hops.getLast?.map (·.target)

end Route

end JoinPlan
