import JoinPlan.Scalar.Basic
import JoinPlan.SortedMap
import JoinPlan.Text.Blank

/-!
# Schemas

A schema describes one resource type: its attributes, each a scalar of some type
or a relation to another resource type, the field that identifies a document, and
the extra paths that searches follow by default. The type's name is also the name
of its collection.

The relations and the inherited attributes stand in the order of their names.
`Schema.fault?` finds the first thing wrong with a schema on its own. Whether the
targets of its relations exist is a matter of the registry.
-/

namespace JoinPlan

/-- How many documents a relation may refer to. -/
inductive Cardinality where
  | one
  | many
deriving DecidableEq, Repr

/-- The name of a cardinality. -/
def Cardinality.name : Cardinality → String
  | .one => "one"
  | .many => "many"

/-- A reference to documents of another resource type. -/
structure Relation where
  target : String
  cardinality : Cardinality
  traversalKey : Option String
deriving DecidableEq, Repr

/-- The key of the identifier inside a reference, and the traversal key of a
relation that declares none. -/
def referenceKey : String := "id"

/-- The field of the target that stands for the related document. -/
def Relation.keyOrDefault (r : Relation) : String := r.traversalKey.getD referenceKey

/-- What an attribute holds. -/
inductive AttributeKind where
  | scalar (type : ScalarType)
  | relation (relation : Relation)
deriving DecidableEq, Repr

/-- An attribute: what it holds, and the path its value is inherited along. -/
structure Attribute where
  kind : AttributeKind
  inherited : Option String
deriving DecidableEq, Repr

namespace Attribute

/-- A scalar attribute. -/
def ofScalar (type : ScalarType) : Attribute := ⟨.scalar type, none⟩

/-- A relation to one document, without a traversal key. -/
def ofTarget (target : String) : Attribute := ⟨.relation ⟨target, .one, none⟩, none⟩

/-- The relation with a traversal key; a scalar stays as it is. -/
def withTraversalKey (a : Attribute) (key : String) : Attribute :=
  match a.kind with
  | .relation r => { a with kind := .relation { r with traversalKey := some key } }
  | .scalar _ => a

/-- The relation to many documents; a scalar stays as it is. -/
def toMany (a : Attribute) : Attribute :=
  match a.kind with
  | .relation r => { a with kind := .relation { r with cardinality := .many } }
  | .scalar _ => a

/-- The attribute with its value inherited along a path. -/
def inheritedFrom (a : Attribute) (path : String) : Attribute :=
  { a with inherited := some path }

/-- The relation, if the attribute is one. -/
def relation? (a : Attribute) : Option Relation :=
  match a.kind with
  | .relation r => some r
  | .scalar _ => none

/-- The type of the values, if the attribute is a scalar. -/
def scalarType? (a : Attribute) : Option ScalarType :=
  match a.kind with
  | .scalar type => some type
  | .relation _ => none

end Attribute

/-- The description of a resource type. -/
structure Schema where
  name : String
  version : String
  idField : String
  extraPaths : List String
  attributes : SortedMap Attribute
deriving DecidableEq

/-- What can be wrong with a schema on its own. -/
inductive SchemaFault where
  | blankName
  | blankIdField
  | blankTarget (name : String)
  | blankTraversalKey (name : String)
  | shortInheritedPath (name : String)
deriving DecidableEq, Repr

/-- The fault in words. -/
def SchemaFault.message : SchemaFault → String
  | .blankName => "Schema must have a non-empty name"
  | .blankIdField => "Schema identifier field must not be empty"
  | .blankTarget name => s!"Relation '{name}' must declare a target"
  | .blankTraversalKey name => s!"Relation '{name}' declares an empty traversal key"
  | .shortInheritedPath name => s!"Inherited path of '{name}' must contain at least two segments"

namespace Schema

/-- A schema without attributes, whose documents are identified by `id`. -/
def make (name version : String) : Schema := ⟨name, version, referenceKey, [], .empty⟩

/-- The schema with an attribute. -/
def withAttribute (s : Schema) (name : String) (a : Attribute) : Schema :=
  { s with attributes := s.attributes.insert name a }

/-- The schema with one more extra path. -/
def withExtraPath (s : Schema) (path : String) : Schema :=
  { s with extraPaths := s.extraPaths ++ [path] }

/-- The attribute of a name. -/
def attribute? (s : Schema) (name : String) : Option Attribute := s.attributes.get? name

/-- The relation of a name. -/
def relation? (s : Schema) (name : String) : Option Relation :=
  (s.attribute? name).bind (·.relation?)

/-- The relations in the order of their names. -/
def relations (s : Schema) : List (String × Relation) :=
  s.attributes.entries.filterMap fun (name, a) => a.relation?.map fun r => (name, r)

/-- The attributes with an inherited value and their paths, in the order of names. -/
def inheritedPaths (s : Schema) : List (String × String) :=
  s.attributes.entries.filterMap fun (name, a) => a.inherited.map fun path => (name, path)

/-- The relations of a schema are what it answers to their names. -/
theorem mem_relations_iff {schema : Schema} {name : String} {relation : Relation} :
    (name, relation) ∈ schema.relations ↔ schema.relation? name = some relation := by
  unfold relations relation? attribute?
  rw [SortedMap.mem_filterMap_entries_iff, Option.bind_eq_some_iff]

/-- The inherited attributes of a schema are what it answers to their names. -/
theorem mem_inheritedPaths_iff {schema : Schema} {name path : String} :
    (name, path) ∈ schema.inheritedPaths ↔
      ∃ a, schema.attribute? name = some a ∧ a.inherited = some path :=
  SortedMap.mem_filterMap_entries_iff

theorem sorted_relations (schema : Schema) :
    schema.relations.Pairwise fun a b => a.1 < b.1 :=
  SortedMap.sorted_filterMap_entries schema.attributes _

theorem sorted_inheritedPaths (schema : Schema) :
    schema.inheritedPaths.Pairwise fun a b => a.1 < b.1 :=
  SortedMap.sorted_filterMap_entries schema.attributes _

/-- What is wrong with a relation. -/
def relationFault? (name : String) (r : Relation) : Option SchemaFault :=
  if Text.isBlankText r.target then some (.blankTarget name)
  else if r.traversalKey.any Text.isBlankText then some (.blankTraversalKey name)
  else none

/-- What is wrong with an attribute. -/
def attributeFault? (name : String) (a : Attribute) : Option SchemaFault :=
  (a.relation?.bind (relationFault? name)).or
    (if a.inherited.any (!·.toList.contains '/') then some (.shortInheritedPath name) else none)

/-- The first thing wrong with a schema, its attributes taken by name. -/
def fault? (s : Schema) : Option SchemaFault :=
  if Text.isBlankText s.name then some .blankName
  else if Text.isBlankText s.idField then some .blankIdField
  else s.attributes.entries.findSome? fun (name, a) => attributeFault? name a

end Schema

end JoinPlan
