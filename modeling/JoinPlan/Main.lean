import JoinPlan.Command.Run

/-!
# The program

Reads the arguments, runs the command on the files of the machine and prints what it
gives. Warnings and errors go to the standard error output. The exit code is `0` after
success, `1` when the command fails and `2` when the arguments are no command.

A directory of schemas names its files in `listing.txt`.
-/

namespace JoinPlan.Program

/-- The lines of the help text. -/
def helpLines : List String := [
  "Relationship paths compiled to aggregation pipelines",
  "",
  "Usage: aerorel <COMMAND>",
  "",
  "Commands:",
  "  explain  Plan a search request and print the pipeline",
  "           [--config <CONFIG>] [--request <REQUEST>] [--text]",
  "  check    Load schemas and report relations to unregistered types",
  "           [--config <CONFIG>]",
  "  help     Print this message",
  "",
  "Options:",
  "  -h, --help     Print help",
  "  -V, --version  Print version"]

/-- The help text. -/
def helpText : String := String.join (helpLines.map (· ++ "\n"))

/-- The version text. -/
def versionText : String := "aerorel 0.1.0\n"

/-- The complaint about arguments that are no command. -/
def usageText : UsageFault → String
  | .unknownCommand => "error: unrecognized subcommand\n"
  | .unknownArgument => "error: unexpected argument found\n"
  | .missingValue => "error: a value is required for an option but none was supplied\n"
  | .unexpectedValue => "error: unexpected value for an option found\n"
  | .repeatedOption => "error: an option cannot be used multiple times\n"
  | .help | .version | .noCommand => helpText

/-- The bytes as text, if they are text. -/
def decoded (read : IO ByteArray) : IO (Option String) := do
  try
    return String.fromUTF8? (← read)
  catch _ =>
    return none

/-- The file of a directory that names the files in it, one on a line. -/
def listingName : String := "listing.txt"

/-- Whether nothing is at a path. -/
def isMissing (path : String) : IO Bool := do
  try
    discard <| IO.FS.readBinFile path
    return false
  catch e =>
    match e with
    | .noFileOrDirectory .. => return true
    | _ => return false

/-- What listing a directory gives. A directory without a list of its files cannot be
read. -/
def listing (path : String) : IO Listing := do
  if ← isMissing path then return .missing
  match ← decoded (IO.FS.readBinFile (Path.join path listingName)) with
  | some text => return .names ((Text.split '\n' text).filter (! ·.isEmpty))
  | none => return .unreadable

/-- The files of the machine. -/
def machineFiles : Files IO where
  text? := fun path => decoded (IO.FS.readBinFile path)
  list := listing

/-- The line of a log record. -/
def recordLine (r : Log.Record) : String :=
  " ".intercalate <|
    [r.level.name, r.event]
      ++ (r.resourceType.map fun type => "resource_type=" ++ type).toList
      ++ (r.code.map fun code => "code=" ++ code).toList
      ++ (r.reason.map fun reason => "reason=" ++ reason).toList
      ++ [r.fieldText]

/-- Whether a record is shown: warnings and errors are. -/
def isShown (r : Log.Record) : Bool := r.level == .warn || r.level == .error

/-- Runs the command that the arguments ask for and gives the exit code. -/
def runArguments (arguments : List String) : IO UInt32 := do
  match Arguments.parse arguments with
  | .error .help =>
    IO.print helpText
    return 0
  | .error .version =>
    IO.print versionText
    return 0
  | .error fault =>
    IO.eprint (usageText fault)
    return 2
  | .ok command =>
    let output ← command.run machineFiles (decoded (do (← IO.getStdin).readBinToEnd))
    (output.records.filter isShown).forM fun r => IO.eprintln (recordLine r)
    IO.print output.printed
    match output.error with
    | none => return 0
    | some e =>
      IO.eprintln s!"{e.code}: {e.message}"
      return 1

end JoinPlan.Program

/-- The program. -/
def main (arguments : List String) : IO UInt32 :=
  JoinPlan.Program.runArguments arguments
