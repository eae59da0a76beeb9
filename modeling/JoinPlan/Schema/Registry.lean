import JoinPlan.Schema.Basic
import JoinPlan.Schema.Error

/-!
# The registry of schemas

A registry holds schemas under their names. It is filled by `add` alone, which
refuses a schema with a fault and a name that is taken; so every schema in a
registry is free of faults and stands under its own name, and a name is never
given to another schema. A refused schema leaves the registry as it was. `register` is
the call that fills a registry held as a state.
-/

namespace JoinPlan

/-- Schemas by name. -/
structure Registry where
  schemas : SortedMap Schema
  named : ∀ entry ∈ schemas.entries, entry.2.name = entry.1
  sound : ∀ entry ∈ schemas.entries, entry.2.fault? = none

/-- A relation whose target is not registered. -/
structure DanglingRelation where
  type : String
  relation : String
  target : String
deriving DecidableEq, Repr

namespace Registry

/-- The registry without schemas. -/
def empty : Registry where
  schemas := .empty
  named := by simp [SortedMap.empty]
  sound := by simp [SortedMap.empty]

instance : Inhabited Registry := ⟨empty⟩

/-- The schema of a resource type. -/
def get? (r : Registry) (type : String) : Option Schema := r.schemas.get? type

/-- A schema stands under its own name. -/
theorem name_of_get? {r : Registry} {type : String} {schema : Schema}
    (h : r.get? type = some schema) : schema.name = type :=
  r.named (type, schema) (SortedMap.get?_eq_some_iff.mp h)

/-- Whether a resource type is registered. -/
def contains (r : Registry) (type : String) : Bool := r.schemas.contains type

/-- The schema of a resource type that must be registered. -/
def require (r : Registry) (type : String) : Except SchemaError Schema :=
  match r.get? type with
  | some schema => .ok schema
  | none => .error (.notFound type)

/-- The version of a registered resource type. -/
def version? (r : Registry) (type : String) : Option String := (r.get? type).map (·.version)

/-- The registered types in order. -/
def types (r : Registry) : List String := r.schemas.keys

/-- The number of schemas. -/
def size (r : Registry) : Nat := r.schemas.size

/-- The registry with one more schema. `origin` is where the schema came from, for
the message about a fault. -/
def add (r : Registry) (origin : String) (schema : Schema) : Except SchemaError Registry :=
  match h : schema.fault? with
  | some fault => .error (.malformed origin fault.message)
  | none =>
    if r.contains schema.name then .error (.alreadyRegistered schema.name)
    else
      .ok {
        schemas := r.schemas.insert schema.name schema
        named := fun entry he => by
          rcases SortedMap.mem_put he with rfl | he
          · rfl
          · exact r.named entry he
        sound := fun entry he => by
          rcases SortedMap.mem_put he with rfl | he
          · exact h
          · exact r.sound entry he }

/-- The origin of a schema that does not come from a file. -/
def inMemory : String := "<in-memory>"

/-- A call that registers a schema in the registry that is being filled. -/
def register (schema : Schema) : ExceptT SchemaError (StateM Registry) Unit := do
  set (← (← get).add inMemory schema)

/-- The registry of a list of schemas. -/
def ofSchemas (schemas : List Schema) : Except SchemaError Registry :=
  schemas.foldlM (fun r schema => r.add schema.name schema) empty

/-- The relations whose targets are not registered, by type and then by attribute. -/
def danglingRelations (r : Registry) : List DanglingRelation :=
  r.schemas.entries.flatMap fun (type, schema) =>
    (schema.relations.filter fun (_, relation) => !r.contains relation.target).map
      fun (name, relation) => ⟨type, name, relation.target⟩

end Registry

end JoinPlan
