import KeyGloss.CommandLine.Arguments

/-!
# Reading command lines

Words are read from left to right. A word with two dashes names a switch, one with a
single dash is a row of letters, and after a lone `--` every word is plain. The value of a
switch that stands in a word of its own is looked at only when the next switch or plain
word comes, or at the end; a value in the same word is looked at on the spot. So with two
faults in a line, the one that is looked at first counts.

The grammar of command lines and the kinds of usage faults are defined here. Of the help pages
only the one that a line without a command shows is kept, in `Run`.
-/

namespace KeyGloss

/-- What the words of a command line can set. -/
inductive Switch where
  | logLevel
  | logFormat
  | help
  | version
  | messagesRoot
  | locale
  | verbose
  | mode
  | dryRun
  | onReplace
  | ignore
  | extension
  | jobs
  | formatterTimeout
  | path
  /-- The directory, which is given by its place and not by a name. -/
  | dir
  deriving DecidableEq, Repr

namespace Switch

/-- The name after two dashes. -/
def name : Switch → Text
  | .logLevel => "log-level"
  | .logFormat => "log-format"
  | .help => "help"
  | .version => "version"
  | .messagesRoot => "messages-root"
  | .locale => "locale"
  | .verbose => "verbose"
  | .mode => "mode"
  | .dryRun => "dry-run"
  | .onReplace => "on-replace"
  | .ignore => "ignore"
  | .extension => "extension"
  | .jobs => "jobs"
  | .formatterTimeout => "formatter-timeout"
  | .path => "path"
  | .dir => "dir"

/-- The letter after one dash. -/
def letter? : Switch → Option Char
  | .help => some 'h'
  | .version => some 'V'
  | .verbose => some 'v'
  | .jobs => some 'j'
  | _ => none

/-- A flag is set by its name alone; every other switch has a value. -/
def isFlag : Switch → Bool
  | .help | .version | .verbose | .dryRun => true
  | _ => false

end Switch

/-- The part of a command line that is being read. -/
inductive Scope where
  /-- What stands before the command. -/
  | top
  | inject
  | generate
  | init
  deriving DecidableEq, Repr

namespace Scope

/-- The switches that a part understands. -/
def switches : Scope → List Switch
  | .top => [.logLevel, .logFormat, .help, .version]
  | .inject => [.messagesRoot, .locale, .verbose, .mode, .dryRun, .onReplace, .ignore, .extension,
      .jobs, .formatterTimeout, .logLevel, .logFormat, .help]
  | .generate => [.path, .messagesRoot, .locale, .verbose, .logLevel, .logFormat, .help]
  | .init => [.logLevel, .logFormat, .help]

/-- The switch of a name. -/
def named? (s : Scope) (name : Text) : Option Switch := s.switches.find? (·.name = name)

/-- The switch of a letter. -/
def lettered? (s : Scope) (c : Char) : Option Switch := s.switches.find? (·.letter? = some c)

/-- The command of a name. -/
def ofName? (name : Text) : Option Scope :=
  if name = "inject" then some .inject
  else if name = "generate" then some .generate
  else if name = "init" then some .init
  else none

end Scope

/-- The word that asks for help on a command. -/
def helpWord : Text := "help"

/-- Whether a word names a command. -/
def isCommandName (word : Text) : Bool := word = helpWord || (Scope.ofName? word).isSome

/-- All that one part of a command line has set. -/
structure Given where
  logLevel : Option LogLevel := none
  logFormat : Option LogFormat := none
  messagesRoot : Option Path := none
  locales : List Text := []
  verbose : Bool := false
  mode : Option Mode := none
  dryRun : Bool := false
  onReplace : Option Text := none
  ignores : List Text := []
  extensions : List Text := []
  jobs : Option UInt64 := none
  formatterTimeout : Option UInt64 := none
  path : Option Path := none
  dir : Option Path := none
  deriving DecidableEq, Repr

namespace Given

/-- A value that may be set once. -/
def once {α : Type} (current : Option α) (value : Except UsageFault α) :
    Except UsageFault (Option α) :=
  match current with
  | some _ => .error .repeated
  | none => value.map some

/-- A value among those allowed. -/
def allowed {α : Type} (value : Option α) : Except UsageFault α :=
  match value with
  | some a => .ok a
  | none => .error .invalidValue

/-- A path, which must not be empty. -/
def pathValue (value : Text) : Except UsageFault Path :=
  if value.isEmpty then .error .invalidValue else .ok value

/-- The number that digits spell. -/
def digitsValue (digits : Text) : Nat :=
  digits.foldl (fun n c => 10 * n + (c.toNat - '0'.toNat)) 0

/-- A number of 64 bits in decimal digits, with an optional plus sign before them. -/
def numberValue (value : Text) : Except UsageFault UInt64 :=
  let digits := if value.head? = some '+' then value.drop 1 else value
  if digits.isEmpty || !digits.all Char.isDigit then .error .malformedNumber
  else
    let n := digitsValue digits
    if n < UInt64.size then .ok (UInt64.ofNat n) else .error .malformedNumber

/-- Sets a switch to a value. -/
def assign (g : Given) (switch : Switch) (value : Text) : Except UsageFault Given :=
  match switch with
  | .logLevel => do
    return { g with logLevel := ← once g.logLevel (allowed (LogLevel.ofName? value)) }
  | .logFormat => do
    return { g with logFormat := ← once g.logFormat (allowed (LogFormat.ofName? value)) }
  | .messagesRoot => do
    return { g with messagesRoot := ← once g.messagesRoot (pathValue value) }
  | .locale => .ok { g with locales := g.locales ++ [value] }
  | .mode => do return { g with mode := ← once g.mode (allowed (Mode.ofName? value)) }
  | .onReplace => do return { g with onReplace := ← once g.onReplace (.ok value) }
  | .ignore => .ok { g with ignores := g.ignores ++ [value] }
  | .extension => .ok { g with extensions := g.extensions ++ [value] }
  | .jobs => do return { g with jobs := ← once g.jobs (numberValue value) }
  | .formatterTimeout => do
    return { g with formatterTimeout := ← once g.formatterTimeout (numberValue value) }
  | .path => do return { g with path := ← once g.path (pathValue value) }
  | .dir => do return { g with dir := ← once g.dir (pathValue value) }
  | .help | .version | .verbose | .dryRun => .error .unexpectedValue

/-- Sets a flag. -/
def raise (g : Given) (flag : Switch) : Except UsageFault Given :=
  match flag with
  | .help => .error .helpAsked
  | .version => .error .versionAsked
  | .verbose => if g.verbose then .error .repeated else .ok { g with verbose := true }
  | .dryRun => if g.dryRun then .error .repeated else .ok { g with dryRun := true }
  | _ => .error .invalidValue

/-- What is set about messages. -/
def messages (g : Given) : MessageOptions :=
  { messagesRoot := g.messagesRoot, locales := g.locales, verbose := g.verbose }

/-- The command that a part of a command line asks for. -/
def command? (g : Given) : Scope → Option Command
  | .top => none
  | .inject => some (.inject
      { dir := g.dir, messages := g.messages, mode := g.mode, dryRun := g.dryRun
        onReplace := g.onReplace, ignores := g.ignores, extensions := g.extensions
        jobs := g.jobs, formatterTimeout := g.formatterTimeout })
  | .generate => some (.generate { path := g.path, messages := g.messages })
  | .init => some .init

/-- The command line of what stands before the command and what belongs to it; of a switch
that both have set, the later one counts. -/
def arguments (top sub : Given) (scope : Scope) : Arguments :=
  { logLevel := sub.logLevel.or top.logLevel
    logFormat := (sub.logFormat.or top.logFormat).getD .human
    command := sub.command? scope }

end Given

/-- The switch that a value is being read for. -/
inductive Pending where
  | nothing
  /-- The value is still to come. -/
  | awaiting (switch : Switch)
  /-- The value is there and has not been looked at. -/
  | holding (switch : Switch) (value : Text)
  deriving DecidableEq, Repr

/-- How far the reading has come. -/
structure Progress where
  given : Given := {}
  pending : Pending := .nothing
  /-- Whether the place of the directory is taken. -/
  dirTaken : Bool := false
  deriving DecidableEq, Repr

/-- The shape of a word. -/
inductive Word where
  | escape
  | long (name : Text) (value : Option Text)
  | short (letters : Text)
  | plain (text : Text)
  deriving DecidableEq, Repr

namespace Word

/-- The shape of a word; a lone dash is plain. -/
def ofText : Text → Word
  | ['-', '-'] => .escape
  | '-' :: '-' :: rest =>
    let name := rest.takeWhile (· != '=')
    .long name (match rest.drop name.length with
      | _ :: value => some value
      | [] => none)
  | '-' :: c :: rest => .short (c :: rest)
  | t => .plain t

end Word

namespace Progress

/-- Looks at the value that is being read, if any. -/
def settle (p : Progress) : Except UsageFault Given :=
  match p.pending with
  | .nothing => .ok p.given
  | .awaiting _ => .error .invalidValue
  | .holding switch value => p.given.assign switch value

/-- Reads a switch that has a value, in the same word or in the next. -/
def takeValue (p : Progress) (switch : Switch) (value : Option Text) :
    Except UsageFault Progress := do
  let given ← p.settle
  match value with
  | some v => return { p with given := ← given.assign switch v, pending := .nothing }
  | none => return { p with given, pending := .awaiting switch }

/-- Reads a flag. -/
def takeFlag (p : Progress) (flag : Switch) : Except UsageFault Progress := do
  let given ← p.settle
  return { p with given := ← given.raise flag, pending := .nothing }

/-- Reads a name after two dashes. -/
def takeLong (scope : Scope) (p : Progress) (name : Text) (value : Option Text) :
    Except UsageFault Progress :=
  match scope.named? name, value with
  | none, _ => .error .unknownArgument
  | some switch, value =>
    if switch.isFlag then
      match value with
      | some _ => .error .unexpectedValue
      | none => p.takeFlag switch
    else p.takeValue switch value

/-- Reads a row of letters: flags, and at most one switch whose value is the rest of the row. -/
def takeLetters (scope : Scope) : Progress → Text → Except UsageFault Progress
  | p, [] => .ok p
  | p, c :: rest =>
    match scope.lettered? c with
    | none => .error .unknownArgument
    | some switch =>
      if switch.isFlag then do takeLetters scope (← p.takeFlag switch) rest
      else
        match rest with
        | [] => p.takeValue switch none
        | '=' :: value => p.takeValue switch (some value)
        | value => p.takeValue switch (some value)

/-- Reads a plain word of a command: only `inject` has a place for one. -/
def takePlain (scope : Scope) (p : Progress) (word : Text) : Except UsageFault Progress :=
  if scope = .inject && !p.dirTaken then do
    let given ← p.settle
    return { given, pending := .holding .dir word, dirTaken := true }
  else .error .unknownArgument

end Progress

/-- Reads the words of a command; `escaped` tells whether a lone `--` has been read. -/
def Given.ofWords (scope : Scope) : Bool → Progress → List Text → Except UsageFault Given
  | _, p, [] => p.settle
  | true, p, word :: rest => do ofWords scope true (← p.takePlain scope word) rest
  | false, p, word :: rest =>
    match Word.ofText word with
    | .escape => ofWords scope true p rest
    | .long name value => do ofWords scope false (← p.takeLong scope name value) rest
    | .short letters => do ofWords scope false (← p.takeLetters scope letters) rest
    | .plain t =>
      match p.pending with
      | .awaiting switch => ofWords scope false { p with pending := .holding switch t } rest
      | _ => do ofWords scope false (← p.takePlain scope t) rest

namespace Arguments

/-- What the words after `help` ask for: at most one, and it is a command. -/
def helpFault : List Text → UsageFault
  | [] => .helpAsked
  | [word] => if isCommandName word then .helpAsked else .unknownCommand
  | _ => .unknownCommand

/-- Reads words from the start; `escaped` tells whether a lone `--` has been read. What a
command's own words are about is settled before a value that waits in front of it. -/
def ofWordsFrom : Bool → Progress → List Text → Except UsageFault Arguments
  | _, p, [] => do
    let given ← p.settle
    return given.arguments {} .top
  | true, _, word :: _ =>
    .error (if isCommandName word then .unknownArgument else .unknownCommand)
  | false, p, word :: rest =>
    match Word.ofText word with
    | .escape => ofWordsFrom true p rest
    | .long name value => do ofWordsFrom false (← p.takeLong .top name value) rest
    | .short letters => do ofWordsFrom false (← p.takeLetters .top letters) rest
    | .plain t =>
      match p.pending with
      | .awaiting switch => ofWordsFrom false { p with pending := .holding switch t } rest
      | _ =>
        if t = helpWord then .error (helpFault rest)
        else
          match Scope.ofName? t with
          | none => .error .unknownCommand
          | some scope => do
            let sub ← Given.ofWords scope false {} rest
            let top ← p.settle
            return top.arguments sub scope

/-- Reads the words after the program's name. -/
def ofWords (words : List Text) : Except UsageFault Arguments := ofWordsFrom false {} words

end Arguments

end KeyGloss
