import JoinPlan.Command.Arguments
import JoinPlan.Config
import JoinPlan.Plan.Explanation
import JoinPlan.Plan.Planning

/-!
# Commands

`explain` plans a request and shows the plan, or why there is none; `check` lists the
schemas and the relations that lead nowhere. Both read the configuration and the
schemas first, and neither needs a store. A command that fails may have printed
something before.
-/

namespace JoinPlan

/-- Why a command fails. -/
inductive CommandError where
  | config (error : ConfigError)
  | unreadableInput
  | unreadableRequest (path : String)
  | request (fault : RequestFault)
  | refused (error : PlanError)
  | dangling (count : Nat)
deriving DecidableEq, Repr

namespace CommandError

/-- The stable code of an error. -/
def code : CommandError → String
  | .config error => error.code
  | .unreadableInput | .unreadableRequest _ => "AERO_CLI_IO_ERROR"
  | .request _ => "AERO_CLI_INVALID_REQUEST"
  | .refused error => error.code
  | .dangling _ => "AERO_CLI_DANGLING_RELATIONS"

/-- What went wrong, in words. -/
def message : CommandError → String
  | .config error => error.message
  | .unreadableInput => "I/O error"
  | .unreadableRequest path => "I/O error: Failed to read " ++ path
  | .request .blank => "Invalid request: Empty input"
  | .request .malformed => "Invalid request"
  | .refused error => s!"Request rejected: {error.code}: {error.reason}"
  | .dangling count => s!"{count} dangling relation(s) found"

end CommandError

/-- What a command prints and logs, and why it fails if it does. -/
structure CommandOutput where
  printed : String
  error : Option CommandError
  records : List Log.Record

namespace CommandOutput

/-- The output of a command that fails before it prints anything. -/
def failed (error : CommandError) (records : List Log.Record) : CommandOutput :=
  ⟨"", some error, records⟩

end CommandOutput

namespace DanglingRelation

/-- The relation as JSON. -/
def toJson (d : DanglingRelation) : Value :=
  .object [("resource_type", .string d.type), ("attribute", .string d.relation),
    ("target", .string d.target)]

end DanglingRelation

namespace Command

/-- A value as it is printed. -/
def printedJson (value : Value) : String := value.pretty ++ "\n"

/-- What was read from the files for a command: a configuration with its registry, and
the log. -/
structure Setup where
  config : Config
  registry : Registry
  records : List Log.Record

/-- Reads the configuration at a path and its schemas. -/
def setup {m : Type → Type} [Monad m] (files : Files m) (path : String) :
    m (Except CommandOutput Setup) := do
  match Config.load path (← files.text? path) with
  | .error e => return .error (.failed (.config e) [])
  | .ok config =>
    let loaded := [config.loadedRecord]
    match config.registry (← SchemaDirectory.read files config.schemaDir) with
    | .error e => return .error (.failed (.config e) loaded)
    | .ok registry => return .ok ⟨config, registry, loaded ++ registry.loadedRecords⟩

/-- Reads a request from a file or from the standard input. -/
def readRequest {m : Type → Type} [Monad m] (files : Files m) (input : m (Option String))
    (name : String) : m (Except CommandError SearchRequest) := do
  let (text, unread) ←
    if name = Arguments.standardInput then pure (← input, CommandError.unreadableInput)
    else pure (← files.text? name, CommandError.unreadableRequest name)
  match text with
  | none => return .error unread
  | some text => return (SearchRequest.read text).mapError .request

/-- The output of the explanation of a request. -/
def explained (setup : Setup) (request : SearchRequest) (asText : Bool) : CommandOutput :=
  let planning := Plan.ofRequest setup.registry setup.config.options request
  let explanation : Explanation := planning.result
  { printed := if asText then explanation.text else printedJson explanation.toJson
    error :=
      match planning.result with
      | .ok _ => none
      | .error e => some (.refused e)
    records := setup.records ++ planning.records }

/-- The output of the check of a registry. -/
def checked (setup : Setup) : CommandOutput :=
  let dangling := setup.registry.danglingRelations
  { printed :=
      printedJson (.object [("schemas", .ofTexts setup.registry.types),
        ("dangling", .array (dangling.map DanglingRelation.toJson))])
    error := if dangling.isEmpty then none else some (.dangling dangling.length)
    records := setup.records }

/-- Runs a command on files and a standard input. -/
def run {m : Type → Type} [Monad m] (files : Files m) (input : m (Option String)) :
    Command → m CommandOutput
  | .explain config request asText => do
    match ← setup files config with
    | .error output => return output
    | .ok setup =>
      match ← readRequest files input request with
      | .error e => return .failed e setup.records
      | .ok request => return explained setup request asText
  | .check config => do
    match ← setup files config with
    | .error output => return output
    | .ok setup => return checked setup

end Command

end JoinPlan
