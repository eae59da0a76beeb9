/-!
# Arguments

The command line names a command and gives options: `--name value` or `--name=value`,
each at most once. An option with a value is settled when the next option or the end
comes; what is wrong with it is told then, unless an unknown argument is told first.
After `--` nothing is an option any more.
-/

namespace JoinPlan

/-- What the program is asked to do. -/
inductive Command where
  | explain (config request : String) (asText : Bool)
  | check (config : String)
deriving DecidableEq, Repr

/-- Why the arguments are no command; asking for help or for the version is one
reason. -/
inductive UsageFault where
  | help
  | version
  | noCommand
  | unknownCommand
  | unknownArgument
  | missingValue
  | unexpectedValue
  | repeatedOption
deriving DecidableEq, Repr

/-- The options that commands have. -/
inductive CommandOption where
  | config
  | request
  | text
deriving DecidableEq, Repr

namespace CommandOption

/-- The name of an option. -/
def name : CommandOption → String
  | .config => "config"
  | .request => "request"
  | .text => "text"

/-- Whether the option has a value. -/
def hasValue : CommandOption → Bool
  | .config | .request => true
  | .text => false

/-- Whether a value will do. A path must not be empty. -/
def accepts (option : CommandOption) (value : String) : Bool :=
  option != .config || !value.isEmpty

end CommandOption

namespace Arguments

/-- How an argument is written: the two dashes alone, a long option that may have a
value attached, short options, or a plain word. -/
inductive Shape where
  | dashes
  | long (name : String) (attached : Option String)
  | short (first : Char)
  | plain
deriving DecidableEq, Repr

/-- The shape of an argument. -/
def shape (argument : String) : Shape :=
  match argument.toList with
  | ['-', '-'] => .dashes
  | '-' :: '-' :: rest =>
    let name := rest.takeWhile (· != '=')
    match rest.dropWhile (· != '=') with
    | [] => .long (String.ofList name) none
    | _ :: value => .long (String.ofList name) (some (String.ofList value))
  | '-' :: first :: _ => .short first
  | _ => .plain

/-- Options with their values, in the order in which they were settled. -/
abbrev Given := List (CommandOption × String)

/-- The option that was named last, and its value if it is there yet. -/
abbrev Pending := Option (CommandOption × Option String)

/-- The options with one more. -/
def give (given : Given) (option : CommandOption) (value : String) : Except UsageFault Given :=
  if (given.lookup option).isSome then .error .repeatedOption
  else if option.accepts value then .ok (given ++ [(option, value)])
  else .error .missingValue

/-- The options with the pending one settled. -/
def settle (given : Given) : Pending → Except UsageFault Given
  | none => .ok given
  | some (_, none) => .error .missingValue
  | some (option, some value) => give given option value

/-- The options and the pending one after a known option was named. -/
def nameOption (given : Given) (pending : Pending) (option : CommandOption)
    (attached : Option String) : Except UsageFault (Given × Pending) :=
  if option.hasValue then do
    let given ← settle given pending
    match attached with
    | some value => return (← give given option value, none)
    | none => return (given, some (option, none))
  else
    match attached with
    | some _ => .error .unexpectedValue
    | none => do
      let given ← settle given pending
      return (← give given option "", none)

/-- The end of a command's arguments when it is asked for help. -/
def helpAsked (given : Given) (pending : Pending) : UsageFault :=
  match settle given pending with
  | .ok _ => .help
  | .error fault => fault

/-- The options among a command's arguments. -/
def options (known : List CommandOption) (given : Given) (pending : Pending) :
    List String → Except UsageFault Given
  | [] => settle given pending
  | argument :: rest =>
    match shape argument, pending with
    | .dashes, _ => if rest.isEmpty then settle given pending else .error .unknownArgument
    | .long name attached, _ =>
      if name = "help" then
        .error (if attached.isSome then .unexpectedValue else helpAsked given pending)
      else
        match known.find? (·.name = name) with
        | none => .error .unknownArgument
        | some option => do
          let (given, pending) ← nameOption given pending option attached
          options known given pending rest
    | .short first, _ =>
      .error (if first = 'h' then helpAsked given pending else .unknownArgument)
    | .plain, some (option, none) => options known given (some (option, some argument)) rest
    | .plain, _ => .error .unknownArgument

/-- The names of the commands. -/
def commandNames : List String := ["explain", "check", "help"]

/-- The file that holds the configuration where none is named. -/
def standardConfig : String := "./aerorel.json"

/-- The name of the standard input, and the request where none is named. -/
def standardInput : String := "-"

/-- The configuration file that was named. -/
def configOf (given : Given) : String := (given.lookup .config).getD standardConfig

/-- The arguments of the command `explain`. -/
def explain (arguments : List String) : Except UsageFault Command := do
  let given ← options [.config, .request, .text] [] none arguments
  return .explain (configOf given) ((given.lookup .request).getD standardInput)
    (given.lookup .text).isSome

/-- The arguments of the command `check`. -/
def check (arguments : List String) : Except UsageFault Command := do
  let given ← options [.config] [] none arguments
  return .check (configOf given)

/-- What the arguments of the command `help` ask for. -/
def helpFault : List String → UsageFault
  | [] => .help
  | [name] => if commandNames.contains name then .help else .unknownCommand
  | _ => .unknownCommand

/-- What is wrong with arguments that start with an option or no command. -/
def topFault (argument : String) (rest : List String) : UsageFault :=
  match shape argument with
  | .dashes =>
    match rest with
    | [] => .noCommand
    | name :: _ => if commandNames.contains name then .unknownArgument else .unknownCommand
  | .long name attached =>
    if name = "help" ∨ name = "version" then
      if attached.isSome then .unexpectedValue
      else if name = "help" then .help
      else .version
    else .unknownArgument
  | .short first =>
    if first = 'h' then .help
    else if first = 'V' then .version
    else .unknownArgument
  | .plain => .unknownCommand

/-- The command that arguments ask for. -/
def parse : List String → Except UsageFault Command
  | [] => .error .noCommand
  | argument :: rest =>
    if argument = "explain" then explain rest
    else if argument = "check" then check rest
    else if argument = "help" then .error (helpFault rest)
    else .error (topFault argument rest)

end Arguments

end JoinPlan
