import KeyGloss.Path
import KeyGloss.Strategy

/-!
# Command-line arguments

What a command line asks for, and what can be wrong with it.
-/

namespace KeyGloss

/-- How much is logged. -/
inductive LogLevel where
  | trace
  | debug
  | info
  | warn
  | error
  deriving DecidableEq, Repr

namespace LogLevel

/-- The name of a level. -/
def label : LogLevel → Text
  | .trace => "trace"
  | .debug => "debug"
  | .info => "info"
  | .warn => "warn"
  | .error => "error"

/-- The level of a name. -/
def ofName? (name : Text) : Option LogLevel :=
  [trace, debug, info, warn, error].find? (·.label = name)

end LogLevel

/-- The form of log lines. -/
inductive LogFormat where
  | human
  | json
  deriving DecidableEq, Repr

namespace LogFormat

/-- The name of a form. -/
def label : LogFormat → Text
  | .human => "human"
  | .json => "json"

/-- The form of a name. -/
def ofName? (name : Text) : Option LogFormat := [human, json].find? (·.label = name)

end LogFormat

/-- Which messages to load, and how much to tell about it. -/
structure MessageOptions where
  messagesRoot : Option Path := none
  locales : List Text := []
  verbose : Bool := false
  deriving DecidableEq, Repr

/-- What a run on a source tree is asked to do; absent values come from the settings. -/
structure InjectOptions where
  dir : Option Path := none
  messages : MessageOptions := {}
  mode : Option Mode := none
  dryRun : Bool := false
  onReplace : Option Text := none
  ignores : List Text := []
  extensions : List Text := []
  jobs : Option UInt64 := none
  formatterTimeout : Option UInt64 := none
  deriving DecidableEq, Repr

/-- What the making of a key module is asked to do. -/
structure GenerateOptions where
  path : Option Path := none
  messages : MessageOptions := {}
  deriving DecidableEq, Repr

/-- The commands. -/
inductive Command where
  | inject (options : InjectOptions)
  | generate (options : GenerateOptions)
  | init
  deriving DecidableEq, Repr

/-- A whole command line. -/
structure Arguments where
  logLevel : Option LogLevel := none
  logFormat : LogFormat := .human
  command : Option Command := none
  deriving DecidableEq, Repr

/-- Why a command line is answered without running it. -/
inductive UsageFault where
  | helpAsked
  | versionAsked
  /-- The first word is no command. -/
  | unknownCommand
  /-- An option or a word that has no place here. -/
  | unknownArgument
  /-- A value is missing, empty where it must not be, or not among those allowed. -/
  | invalidValue
  /-- A number cannot be read. -/
  | malformedNumber
  /-- An option that may be given once is given again. -/
  | repeated
  /-- A flag is given a value. -/
  | unexpectedValue
  deriving DecidableEq, Repr

namespace UsageFault

/-- The wording of a fault. -/
def message : UsageFault → Text
  | .helpAsked => "help was asked for"
  | .versionAsked => "skiver 0.1.0"
  | .unknownCommand => "error: unrecognized subcommand"
  | .unknownArgument => "error: unexpected argument found"
  | .invalidValue => "error: a value is missing or not allowed"
  | .malformedNumber => "error: a number cannot be read"
  | .repeated => "error: an argument cannot be used multiple times"
  | .unexpectedValue => "error: unexpected value for a flag"

/-- Asking for help or the version is no error. -/
def exitCode : UsageFault → Nat
  | .helpAsked | .versionAsked => 0
  | _ => 2

end UsageFault

namespace Arguments

/-- Whether the command is asked to tell more. -/
def verbose (a : Arguments) : Bool :=
  match a.command with
  | some (.inject options) => options.messages.verbose
  | some (.generate options) => options.messages.verbose
  | some .init | none => false

end Arguments

end KeyGloss
