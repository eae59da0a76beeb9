import JoinPlan.Json.Typed
import JoinPlan.Schema.Basic
import JoinPlan.Text.Split

/-!
# Schemas as written

A schema is written in JSON with a name and, if wanted, a version, an identifier
field, extra paths and attributes by name. The type of an attribute is `relation`
or the name of a scalar type. Exported schemas put several extra paths into one
text, a line for each; blanks around a path and blank lines do not count.
-/

namespace JoinPlan

/-- Why a text is no schema: it does not have the form of one, or an attribute has
the form and no meaning. -/
inductive DefinitionError where
  | form
  | missingTarget (name : String)
  | unknownType (name type : String)
deriving DecidableEq, Repr

/-- The error in words. What the form lacks is not told. -/
def DefinitionError.message? : DefinitionError → Option String
  | .form => none
  | .missingTarget name => some s!"Relation '{name}' must declare a target"
  | .unknownType name type => some s!"Attribute '{name}' has unknown type '{type}'"

/-- An attribute as written. -/
structure AttributeForm where
  type : String
  target : Option String
  cardinality : Cardinality
  traversalKey : Option String
  inherited : Option String

namespace AttributeForm

/-- A cardinality by its name, which may also stand as the only key of an object. -/
def cardinality? (node : Node) : Option Cardinality := do
  let name ← match node with
    | .object [(name, .null)] => name
    | node => node.text?
  match name with
  | "one" => some .one
  | "many" => some .many
  | _ => none

/-- The form of an attribute. -/
def ofNode? (node : Node) : Option AttributeForm := do
  let fields ←
    node.typedFields? false ["type", "target", "cardinality", "traversal_key", "inherited"]
  let nullableText (name : String) := Node.orDefault? fields name none (Node.nullable? Node.text?)
  return {
    type := ← Node.required? fields "type" Node.text?
    target := ← nullableText "target"
    cardinality := ← Node.orDefault? fields "cardinality" .one cardinality?
    traversalKey := ← nullableText "traversal_key"
    inherited := ← nullableText "inherited" }

/-- The attribute that a form stands for. -/
def toAttribute (form : AttributeForm) (name : String) : Except DefinitionError Attribute :=
  if form.type = "relation" then
    match form.target with
    | some target =>
      .ok ⟨.relation ⟨target, form.cardinality, form.traversalKey⟩, form.inherited⟩
    | none => .error (.missingTarget name)
  else
    match ScalarType.ofName? form.type with
    | some type => .ok ⟨.scalar type, form.inherited⟩
    | none => .error (.unknownType name form.type)

end AttributeForm

/-- A schema as written. -/
structure SchemaForm where
  name : String
  version : String
  idField : String
  extraPaths : List String
  attributes : SortedMap AttributeForm

namespace SchemaForm

/-- The forms of attributes by name; of a repeated name the last counts. -/
def attributes? : Node → Option (SortedMap AttributeForm)
  | .object members => do
    let forms ← members.mapM fun (name, node) => do
      return (← name, ← AttributeForm.ofNode? node)
    return .ofList forms
  | _ => none

/-- The form of a schema. -/
def ofNode? (node : Node) : Option SchemaForm := do
  let fields ←
    node.typedFields? false ["name", "version", "id_field", "extra_paths", "attributes"]
  return {
    name := ← Node.required? fields "name" Node.text?
    version := ← Node.orDefault? fields "version" "1" Node.text?
    idField := ← Node.orDefault? fields "id_field" referenceKey Node.text?
    extraPaths := ← Node.orDefault? fields "extra_paths" [] Node.texts?
    attributes := ← Node.orDefault? fields "attributes" .empty attributes? }

/-- The paths of written entries, one for each line that is not blank. -/
def pathLines (entries : List String) : List String :=
  ((entries.flatMap (Text.split '\n')).map Text.trim).filter (!·.isEmpty)

/-- The schema that a form stands for. Attributes are taken by name, and the first
without a meaning is the error. -/
def toSchema (form : SchemaForm) : Except DefinitionError Schema := do
  let attributes ← form.attributes.entries.mapM fun (name, attributeForm) => do
    return (name, ← attributeForm.toAttribute name)
  return {
    name := form.name
    version := form.version
    idField := form.idField
    extraPaths := pathLines form.extraPaths
    attributes := .ofList attributes }

end SchemaForm

namespace Schema

/-- The schema that a JSON value stands for. -/
def ofNode (node : Node) : Except DefinitionError Schema :=
  match SchemaForm.ofNode? node with
  | some form => form.toSchema
  | none => .error .form

/-- The schema of a text. What follows the schema is looked at last. -/
def read (text : String) : Except DefinitionError Schema :=
  match Node.readStart text with
  | none => .error .form
  | some (node, rest) => do
    let schema ← ofNode node
    if (Json.skipGap rest).isEmpty then return schema else .error .form

end Schema

end JoinPlan
