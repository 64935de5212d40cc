import KeyGloss.CommandLine.Arguments
import KeyGloss.Config.Discover
import KeyGloss.Injection
import KeyGloss.KeyModule
import KeyGloss.Messages
import KeyGloss.Report.Print

/-!
# Running commands

Carries out a command line on a disk: what it prints, how it ends, and the disk afterwards.
-/

namespace KeyGloss

/-- How a command that came to its end went. -/
inductive ExitStatus where
  | success
  /-- Work is left: a dry run found changes, a run was interrupted, or a file was in the way. -/
  | failure
  | error
  deriving DecidableEq, Repr

namespace ExitStatus

/-- The code that a process ends with. -/
def code : ExitStatus → Nat
  | .success => 0
  | .failure => 1
  | .error => 2

end ExitStatus

/-- What a command has done: the disk, what was printed, and its end or the reason why it
could not be carried out. -/
structure Response where
  disk : Disk
  output : Text := []
  errors : Text := []
  ending : Except Text ExitStatus := .ok .success

namespace Response

/-- A command that could not be carried out. -/
def fatal (disk : Disk) (errors reason : Text) : Response :=
  { disk, errors, ending := .error reason }

end Response

/-- The text that explains the program. -/
def helpText : Text :=
  "Inject translation annotations and typed key references into TypeScript sources

Usage: skiver [OPTIONS] [COMMAND]

Commands:
  inject    Annotate or rewrite translation key usages in source files
  generate  Generate the identifier module from the message files
  init      Initialize a new .skiverrc.json configuration file
  help      Print this message or the help of the given subcommand(s)

Options:
      --log-level <LOG_LEVEL>    Log level for diagnostics on stderr (RUST_LOG takes precedence) [env: SKIVER_LOG_LEVEL=] [possible values: trace, debug, info, warn, error]
      --log-format <LOG_FORMAT>  Log output format [default: human] [possible values: human, json]
  -h, --help                     Print help
  -V, --version                  Print version
"

/-- The settings that a command works with. -/
structure Workspace where
  config : Config
  /-- The directory that the paths of the settings start from. -/
  baseDir : Path
  /-- The working directory, which the paths of the command line start from. -/
  current : Path
  messagesRoot : Path
  deriving DecidableEq, Repr

namespace Workspace

/-- The settings of the working directory, with what the command line says instead. -/
def load (d : Disk) (options : MessageOptions) : Except ConfigLoadFault Workspace := do
  let current := d.currentPath
  let loaded ← Config.load d current
  let baseDir := loaded.baseDir current
  let config :=
    if options.locales.isEmpty then loaded.config
    else { loaded.config with locales := options.locales }
  let messagesRoot :=
    match options.messagesRoot with
    | some path => current.join path
    | none => baseDir.join config.messagesRoot
  return { config, baseDir, current, messagesRoot }

/-- The messages of the wanted locales, and what is printed about files left out. -/
def loadKeys (w : Workspace) (d : Disk) (color verbose : Bool) :
    Except MessagesFault (KeyMap × Text) := do
  let messages ← Messages.load d w.messagesRoot
  return (messages.keys.retainLocales w.config.locales,
    Report.messageWarnings color verbose messages.warnings)

/-- The request of a run. -/
def injection (w : Workspace) (d : Disk) (options : InjectOptions) : Except Failure Injection := do
  let root :=
    match options.dir with
    | some dir => w.current.join dir
    | none => w.baseDir.join w.config.sourceRoot
  let request ← Injection.ofRoot d root (options.mode.getD w.config.mode)
  return { request with
    dryRun := options.dryRun || w.config.dryRun
    extensions := if options.extensions.isEmpty then w.config.extensions else options.extensions
    ignores := w.config.ignores ++ options.ignores
    onReplace := options.onReplace.or w.config.onReplace
    timeoutMs := 1000 * (options.formatterTimeout.getD w.config.formatterTimeoutSecs).toNat
    jobs := options.jobs.getD w.config.jobs
    identifierModule := w.config.identifierModule
    identifierAlias := w.config.identifierAlias }

end Workspace

/-- The end of a run: work is left when it was interrupted, or when a dry run found some. -/
def Summary.exitStatus (s : Summary) : ExitStatus :=
  if s.cancelled || (s.dryRun && 0 < s.filesChanged) then .failure else .success

namespace Command

/-- Runs over a source tree. -/
def runInject (color : Bool) (options : InjectOptions) (d : Disk) : Response :=
  match Workspace.load d options.messages with
  | .error fault => .fatal d [] fault.message
  | .ok workspace =>
    match workspace.injection d options with
    | .error failure => .fatal d [] failure.message
    | .ok request =>
      match workspace.loadKeys d color options.messages.verbose with
      | .error fault => .fatal d [] fault.message
      | .ok (keys, warnings) =>
        match request.run keys d with
        | (disk, .error failure) => .fatal disk warnings ("Injection failed: " ++ failure.message)
        | (disk, .ok summary) =>
          { disk, output := Report.summary color summary, errors := warnings
            ending := .ok summary.exitStatus }

/-- What is printed about a key that has no place in the module. -/
def skippedWarning (color : Bool) (key : Text) : Text :=
  paint color [.bold, .yellow] "warning:" ++ " key \"" ++ key
    ++ "\" is also a prefix of other keys and was left out\n"

/-- A line about something that was done. -/
def successLine (color : Bool) (t : Text) : Text :=
  paint color [.green] Report.successMark ++ ' ' :: paint color [.green] t ++ ['\n']

/-- Writes the module of keys to a file. -/
def writeModule (color : Bool) (d : Disk) (errors : Text) (target : Path) (made : KeyModule) :
    Response :=
  let parent := target.parent?.getD []
  match d.makeDirectories parent with
  | .error fault =>
    .fatal d errors
      ("Failed to create directory: " ++ Text.quoted parent ++ ": " ++ fault.message)
  | .ok disk =>
    match disk.replace target (Text.encode made.source) with
    | .error fault => .fatal disk errors (Failure.write target fault.message).message
    | .ok disk =>
      { disk, errors
        output := successLine color
          ("Generated " ++ target ++ " with " ++ Report.counted made.keyCount "key" "keys") }

/-- Makes the module of keys. -/
def runGenerate (color : Bool) (options : GenerateOptions) (d : Disk) : Response :=
  match Workspace.load d options.messages with
  | .error fault => .fatal d [] fault.message
  | .ok workspace =>
    match workspace.loadKeys d color options.messages.verbose with
    | .error fault => .fatal d [] fault.message
    | .ok (keys, warnings) =>
      let made := KeyModule.ofKeyMap keys workspace.config.identifierAlias
      let errors := warnings ++ made.skipped.flatMap (skippedWarning color)
      let target :=
        match options.path, workspace.config.generatePath with
        | some path, _ => some (workspace.current.join path)
        | none, some path => some (workspace.baseDir.join path)
        | none, none => none
      match target with
      | none => { disk := d, output := made.source, errors }
      | some target => writeModule color d errors target made

/-- Writes a configuration file with the defaults, unless there is one. -/
def runInit (color : Bool) (d : Disk) : Response :=
  let path := d.currentPath.join Config.fileName
  if d.contains path then
    { disk := d, ending := .ok .failure
      errors := paint color [.bold, .red] "error:" ++ ' ' :: Config.fileName ++ " already exists\n" }
  else
    match d.write path (Text.encode (Config.render {} ++ ['\n'])) with
    | .error fault => .fatal d [] ("Failed to write " ++ Text.quoted path ++ ": " ++ fault.message)
    | .ok disk => { disk, output := successLine color ("Created " ++ Config.fileName) }

/-- Carries out a command. -/
def run (color : Bool) (d : Disk) : Command → Response
  | .inject options => runInject color options d
  | .generate options => runGenerate color options d
  | .init => runInit color d

end Command

namespace Arguments

/-- Carries out a command line; without a command the program is explained. -/
def run (color : Bool) (d : Disk) (a : Arguments) : Response :=
  match a.command with
  | some command => command.run color d
  | none => { disk := d, output := helpText }

end Arguments

end KeyGloss
