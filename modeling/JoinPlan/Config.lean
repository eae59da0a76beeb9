import JoinPlan.Log.Record
import JoinPlan.Options
import JoinPlan.Schema.Directory

/-!
# Configuration

A configuration is a JSON file. It must name the directory of the schemas; all else
has a default, and a key that is not known is an error. A relative directory is seen
from the directory of the configuration file. The values are checked after that.
-/

namespace JoinPlan

/-- A configuration. -/
structure Config where
  schemaDir : String
  options : Options
deriving DecidableEq, Repr

/-- What can be wrong with the values of a configuration. -/
inductive ConfigFault where
  | emptySchemaDir
  | badUplinkMarker (marker : String)
  | blankParentField
  | blankExcludedTarget (target : String)
deriving DecidableEq, Repr

/-- The fault in words. -/
def ConfigFault.message : ConfigFault → String
  | .emptySchemaDir => "schema_dir must not be empty"
  | .badUplinkMarker marker =>
    s!"uplink_marker must be a non-empty path segment, got '{marker}'"
  | .blankParentField => "parent_field must not be empty"
  | .blankExcludedTarget target => s!"excluded_targets contains an empty name: '{target}'"

/-- Why there is no configuration, or no registry for one. -/
inductive ConfigError where
  | unreadable (path : String)
  | malformed
  | invalid (fault : ConfigFault)
  | schema (error : SchemaError)
deriving DecidableEq, Repr

namespace ConfigError

/-- The stable code of an error. -/
def code : ConfigError → String
  | .unreadable _ | .malformed | .invalid _ => "AERO_CONFIG_INVALID"
  | .schema error => error.code

/-- What went wrong, in words. -/
def message : ConfigError → String
  | .unreadable path => "Failed to read config " ++ path
  | .malformed => "Invalid config JSON"
  | .invalid fault => "Invalid config: " ++ fault.message
  | .schema error => error.message

end ConfigError

namespace Config

/-- The configuration of a schema directory where nothing else is chosen. -/
def ofSchemaDir (schemaDir : String) : Config := ⟨schemaDir, .standard⟩

/-- The configuration that a JSON value stands for. -/
def ofNode? (node : Node) : Option Config := do
  let fields ← node.typedFields? true
    ["schema_dir", "uplink_marker", "parent_field", "excluded_targets", "log_pipelines"]
  let standard := Options.standard
  return {
    schemaDir := ← Node.required? fields "schema_dir" Node.text?
    options := {
      uplinkMarker := ← Node.orDefault? fields "uplink_marker" standard.uplinkMarker Node.text?
      parentField := ← Node.orDefault? fields "parent_field" standard.parentField Node.text?
      excludedTargets :=
        ← Node.orDefault? fields "excluded_targets" standard.excludedTargets Node.texts?
      logPipelines := ← Node.orDefault? fields "log_pipelines" standard.logPipelines Node.flag? } }

/-- The configuration of a text. -/
def read? (text : String) : Option Config := (Node.read text).bind ofNode?

/-- The configuration with its schema directory seen from the file at a path. -/
def seenFrom (config : Config) (path : String) : Config :=
  match Path.parent? path with
  | some parent => { config with schemaDir := Path.join parent config.schemaDir }
  | none => config

/-- The first thing wrong with the values. -/
def fault? (config : Config) : Option ConfigFault :=
  let options := config.options
  if config.schemaDir.isEmpty then some .emptySchemaDir
  else if options.uplinkMarker.isEmpty || options.uplinkMarker.toList.contains '/' then
    some (.badUplinkMarker options.uplinkMarker)
  else if Text.isBlankText options.parentField then some .blankParentField
  else (options.excludedTargets.find? Text.isBlankText).map .blankExcludedTarget

/-- The configuration if nothing is wrong with its values. -/
def checked (config : Config) : Except ConfigError Config :=
  match config.fault? with
  | some fault => .error (.invalid fault)
  | none => .ok config

/-- The configuration of the file at a path, from the text of the file. -/
def load (path : String) (text : Option String) : Except ConfigError Config :=
  match text with
  | none => .error (.unreadable path)
  | some text =>
    match read? text with
    | none => .error .malformed
    | some config => (config.seenFrom path).checked

/-- The configuration as JSON. -/
def toJson (config : Config) : Value :=
  .object [
    ("schema_dir", .string config.schemaDir),
    ("uplink_marker", .string config.options.uplinkMarker),
    ("parent_field", .string config.options.parentField),
    ("excluded_targets", .ofTexts config.options.excludedTargets),
    ("log_pipelines", .bool config.options.logPipelines)]

/-- The record of a loaded configuration. -/
def loadedRecord (config : Config) : Log.Record :=
  .ofEvent .configLoaded [("schema_dir", config.schemaDir)]

/-! ## The registry of a configuration -/

/-- The registry of what was read at the schema directory. -/
def registry (config : Config) (directory : SchemaDirectory) : Except ConfigError Registry :=
  match Registry.ofDirectory config.schemaDir directory with
  | ⟨_, some error⟩ => .error (.schema error)
  | ⟨registry, none⟩ => .ok registry

end Config

namespace Registry

/-- The records of a loaded registry: relations that lead nowhere, and the number of
schemas. -/
def loadedRecords (registry : Registry) : List Log.Record :=
  registry.danglingRelations.map
      (fun d =>
        .ofEvent .danglingRelation
          [("attribute", d.relation), ("target", d.target), ("type", d.type)])
    ++ [.ofEvent .schemasLoaded [("count", toString registry.size)]]

end Registry

end JoinPlan
