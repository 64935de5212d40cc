import KeyGloss.Shell.Commands

/-!
# Running shell scripts

Runs the pipelines of a script one after the other, with their redirections, until the
script ends or its time is up.
-/

namespace KeyGloss

namespace Shell

/-- Where a stream goes. -/
inductive Drain where
  /-- Out of the script, as ordinary output. -/
  | output
  /-- Out of the script, as complaints. -/
  | errors
  | file (path : Path)
  | nowhere
  deriving DecidableEq, Repr

/-- Where the streams of a command come from and go to. -/
structure Streams where
  input : ByteArray
  output : Drain := .output
  errors : Drain := .errors

/-- What has been printed so far. -/
structure Printed where
  output : ByteArray := .empty
  errors : ByteArray := .empty

/-- Sends bytes into a drain; a file gets them at its end. -/
def pour (bytes : ByteArray) (drain : Drain) (state : State) (printed : Printed) :
    State × Printed :=
  match drain with
  | .output => (state, { printed with output := printed.output ++ bytes })
  | .errors => (state, { printed with errors := printed.errors ++ bytes })
  | .nowhere => (state, printed)
  | .file path =>
    match readFile state path with
    | .ok before => ((writeFile state path (before ++ bytes)).toOption.getD state, printed)
    | .error _ => (state, printed)

/-- The drain of a file. -/
def fileDrain (path : Path) : Drain := if path = nullPath then .nowhere else .file path

/-- The stream goes to a drain. -/
def redirectTo (streams : Streams) (stream : Nat) (drain : Drain) : Streams :=
  if stream = 1 then { streams with output := drain }
  else if stream = 2 then { streams with errors := drain }
  else streams

/-- The wording of a file that cannot be written to. -/
def cannotCreate (path : Path) (fault : DiskFault) : Text :=
  "cannot create " ++ path ++ ": "
    ++ (if fault = .notFound then ("Directory nonexistent" : Text) else plainReason fault)

/-- The wording of a file that cannot be read. -/
def cannotOpen (path : Path) (fault : DiskFault) : Text :=
  "cannot open " ++ path ++ ": "
    ++ (if fault = .notFound then ("No such file" : Text) else plainReason fault)

/-- Sets up one redirection to `target`. Files to be written are made at once. -/
def redirect (state : State) (streams : Streams) (stream : Nat) (target : Text) :
    Direction → Except Text (State × Streams)
  | .input =>
    match readFile state target with
    | .ok content => .ok (state, { streams with input := content })
    | .error fault => .error (cannotOpen target fault)
  | .output =>
    match writeFile state target .empty with
    | .ok state => .ok (state, redirectTo streams stream (fileDrain target))
    | .error fault => .error (cannotCreate target fault)
  | .append =>
    let before := (readFile state target).toOption.getD .empty
    match writeFile state target before with
    | .ok state => .ok (state, redirectTo streams stream (fileDrain target))
    | .error fault => .error (cannotCreate target fault)
  | .copy =>
    match number? target with
    | some 1 => .ok (state, redirectTo streams stream streams.output)
    | some 2 => .ok (state, redirectTo streams stream streams.errors)
    | _ => .error (target ++ ": Bad file descriptor")

/-- Sets up redirections from left to right. -/
def redirectAll (value : Text → Text) :
    State → Streams → List Redirect → Except (State × Text) (State × Streams)
  | state, streams, [] => .ok (state, streams)
  | state, streams, r :: rest =>
    let target := Text.join " " (fields value r.target)
    match redirect state streams r.stream target r.direction with
    | .ok (state, streams) => redirectAll value state streams rest
    | .error complaint => .error (state, complaint)

/-- The value of a parameter. -/
def parameterValue (s : Setting) (last : Nat) (name : Text) : Text :=
  match name with
  | ['$'] => Text.ofNat s.processId
  | ['?'] => Text.ofNat last
  | ['#'] => Text.ofNat s.parameters.length
  | ['@'] | ['*'] => Text.join " " s.parameters
  | _ =>
    match number? name with
    | some 0 => s.name
    | some (n + 1) => (s.parameters[n]?).getD []
    | none => []

/-- The state of a script between two commands. -/
structure Session where
  state : State
  printed : Printed := {}
  flow : Flow := .ended 0

namespace Session

/-- The status that the last command ended with. -/
def status (p : Session) : Nat :=
  match p.flow with
  | .ended n | .exited n => n
  | .killed signal => 128 + signal
  | .timeUp => 137

end Session

/-- Runs another script: its setting, its text, the state it finds. -/
abbrev Runner := Setting → Text → State → Session

/-- How a script that ran as a command of another one lets that one go on. -/
def asCommand (p : Session) : Flow :=
  match p.flow with
  | .timeUp => .timeUp
  | _ => .ended p.status

/-- Runs a command with its words put in. -/
def runWords (nested : Runner) (s : Setting) (last : Nat) (state : State) (input : ByteArray) :
    List Text → Effect
  | [] => { state }
  | name :: words =>
    if name = "sh" then
      match words with
      | ['-', 'c'] :: script :: rest =>
        let inner : Setting :=
          { s with
            name := rest.head?.getD "sh", parameters := rest.tail, processId := s.processId + 1 }
        let p := nested inner script state
        { state := p.state, output := p.printed.output, errors := p.printed.errors
          flow := asCommand p }
      | _ => .complaint state 127 "sh: 0: cannot open script"
    else runKnown s last state input name words

/-- Runs a simple command that reads `input` and prints into `drain`. -/
def runSimple (nested : Runner) (s : Setting) (p : Session) (input : ByteArray) (drain : Drain)
    (c : Simple) : Session :=
  if s.limit ≤ p.state.elapsed then { p with flow := .timeUp }
  else
    let value := parameterValue s p.status
    match redirectAll value p.state { input, output := drain } c.redirects with
    | .error (state, complaint) =>
      let line := s.name ++ ": 1: " ++ complaint ++ ['\n']
      { state, flow := .ended 2
        printed := { p.printed with errors := p.printed.errors ++ Text.encode line } }
    | .ok (state, streams) =>
      let e := runWords nested s p.status state streams.input (c.words.flatMap (fields value))
      let (state, printed) := pour e.output streams.output e.state p.printed
      let (state, printed) := pour e.errors streams.errors state printed
      { state, printed, flow := e.flow }

/-- Runs a pipeline whose first command reads `input`. What goes from one command to the next
is kept apart from what the script prints. -/
def runCommands (nested : Runner) (s : Setting) :
    Session → ByteArray → List Simple → Session
  | p, _, [] => p
  | p, input, [c] => runSimple nested s p input .output c
  | p, input, c :: rest =>
    let first := runSimple nested s { p with printed := {} } input .output c
    let printed := { p.printed with errors := p.printed.errors ++ first.printed.errors }
    match first.flow with
    | .timeUp => { first with printed }
    | _ =>
      runCommands nested s
        { state := first.state, printed, flow := .ended p.status } first.printed.output rest

/-- Whether a pipeline is to be run after one with the given status. -/
def Condition.holds (status : Nat) : Condition → Bool
  | .always => true
  | .onSuccess => status = 0
  | .onFailure => status != 0

/-- Runs pipelines until the script ends. -/
def runPipelines (nested : Runner) (s : Setting) : Session → List Pipeline → Session
  | p, [] => p
  | p, pipeline :: rest =>
    if pipeline.condition.holds p.status then
      let after := runCommands nested s p .empty pipeline.commands
      match after.flow with
      | .ended _ => runPipelines nested s after rest
      | _ => after
    else runPipelines nested s p rest

/-- Runs a script; `depth` bounds how deep scripts start other scripts. -/
def runScript : Nat → Runner
  | 0, _, _, state => { state, flow := .ended 126 }
  | depth + 1, s, script, state =>
    match parse script with
    | .error fault =>
      { state, flow := .ended 2
        printed := { errors := Text.encode (s.name ++ ": 1: " ++ fault.message ++ ['\n']) } }
    | .ok pipelines => runPipelines (runScript depth) s { state } pipelines

/-- How deep scripts may start other scripts. -/
def depthLimit : Nat := 16

/-- Runs a script from the start. -/
def run (s : Setting) (script : Text) (disk : Disk) : Session :=
  runScript depthLimit s script { disk }

end Shell

end KeyGloss
