import JoinPlan.Files.Basic
import JoinPlan.Schema.Definition
import JoinPlan.Schema.Registry

/-!
# Schema directories

A directory of schemas holds one schema in each of its `.json` files. The files are
taken in the order of their names, and the first that is no schema, has a fault or
repeats a name ends the loading; what was loaded before it stays. A directory that is
missing holds no schemas.
-/

namespace JoinPlan

/-- What was read at the path of a schema directory: its schema files by name, with
their texts where they are text. -/
inductive SchemaDirectory where
  | missing
  | unreadable
  | files (entries : List (String × Option String))
deriving DecidableEq, Repr

/-- The schemas loaded, and the error that ended the loading. -/
structure Loading where
  registry : Registry
  error : Option SchemaError

namespace SchemaDirectory

/-- Whether a file is a schema file, by its name. -/
def isSchemaFile (name : String) : Bool := Path.hasExtension "json" name

/-- The schema directory at a path. -/
def read {m : Type → Type} [Monad m] (files : Files m) (path : String) : m SchemaDirectory := do
  match ← files.list path with
  | .missing => return .missing
  | .unreadable => return .unreadable
  | .names names =>
    let entries ← (names.filter isSchemaFile).mapM fun name => do
      return (name, ← files.text? (Path.join path name))
    return .files entries

end SchemaDirectory

namespace Registry

/-- The schema of a file. -/
def schemaOfFile (path : String) (text : Option String) : Except SchemaError Schema :=
  match text with
  | none => .error (.malformed path "Failed to read file")
  | some text =>
    (Schema.read text).mapError fun e =>
      .malformed path (": ".intercalate ("Invalid JSON" :: e.message?.toList))

/-- The registry with the schema of a file. -/
def addFile (path : String) (registry : Registry) (file : String × Option String) :
    Except SchemaError Registry := do
  let file := (Path.join path file.1, file.2)
  registry.add file.1 (← schemaOfFile file.1 file.2)

/-- The registry with the schemas of files, up to the first error. -/
def addFiles (path : String) (registry : Registry) : List (String × Option String) → Loading
  | [] => ⟨registry, none⟩
  | file :: rest =>
    match registry.addFile path file with
    | .error e => ⟨registry, some e⟩
    | .ok registry => registry.addFiles path rest

/-- The registry of a schema directory at a path. -/
def ofDirectory (path : String) : SchemaDirectory → Loading
  | .missing => ⟨empty, none⟩
  | .unreadable => ⟨empty, some (.malformed path "Failed to read schema directory")⟩
  | .files entries => empty.addFiles path (entries.mergeSort fun a b => !decide (b.1 < a.1))

end Registry

end JoinPlan
