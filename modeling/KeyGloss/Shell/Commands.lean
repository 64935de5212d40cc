import KeyGloss.Disk.Basic
import KeyGloss.Shell.Script

/-!
# Shell commands

What the commands of a script do to a disk, what they print, and with which status they end.
Time passes only while a command sleeps.
-/

namespace KeyGloss

namespace Shell

/-- How the work goes on after a command. -/
inductive Flow where
  /-- The next command may run. -/
  | ended (status : Nat)
  /-- The script is over. -/
  | exited (status : Nat)
  /-- The script was ended by a signal. -/
  | killed (signal : Nat)
  /-- The time was up before the command ended. -/
  | timeUp
  deriving DecidableEq, Repr

/-- What commands change: the disk, and the milliseconds that have passed. -/
structure State where
  disk : Disk
  elapsed : Nat := 0

/-- What a script can see of how it was started. -/
structure Setting where
  /-- The name of the script. -/
  name : Text
  parameters : List Text := []
  processId : Nat := 2
  /-- The milliseconds after which everything is stopped. -/
  limit : Nat

/-- What a command has done. -/
structure Effect where
  state : State
  output : ByteArray := .empty
  errors : ByteArray := .empty
  flow : Flow := .ended 0

namespace Effect

/-- A command that printed a complaint. -/
def complaint (state : State) (status : Nat) (t : Text) : Effect :=
  { state, errors := Text.encode (t ++ ['\n']), flow := .ended status }

/-- An effect with more complaints after it. -/
def andComplaint (e : Effect) (status : Nat) (t : Text) : Effect :=
  { e with errors := e.errors ++ Text.encode (t ++ ['\n']), flow := .ended status }

end Effect

/-- The file that is always empty and forgets what is written to it. -/
def nullPath : Path := "/dev/null"

/-- The bytes of a file. -/
def readFile (state : State) (path : Path) : Except DiskFault ByteArray :=
  if path = nullPath then .ok .empty else state.disk.readBytes path

/-- The state with a file written. -/
def writeFile (state : State) (path : Path) (content : ByteArray) : Except DiskFault State :=
  if path = nullPath then .ok state
  else (state.disk.write path content).map fun disk => { state with disk }

/-- The wording of a disk fault without its number. -/
def plainReason : DiskFault → Text
  | .notFound => "No such file or directory"
  | .alreadyExists => "File exists"
  | .notADirectory => "Not a directory"
  | .isADirectory => "Is a directory"
  | .tooManyLinks => "Too many levels of symbolic links"
  | .tooLong => "File name too long"
  | .denied => "Permission denied"
  | .notText => "Invalid argument"

/-- The number that decimal digits spell. -/
def number? (t : Text) : Option Nat :=
  if !t.isEmpty && t.all Char.isDigit then
    some (t.foldl (fun n c => 10 * n + (c.toNat - '0'.toNat)) 0)
  else none

/-- A duration in seconds, with at most three places that count, as milliseconds. -/
def milliseconds? (t : Text) : Option Nat :=
  let whole := t.takeWhile (· != '.')
  let places := t.drop (whole.length + 1)
  let padded := (places ++ ['0', '0', '0']).take 3
  match number? ('0' :: whole), number? ('0' :: padded) with
  | some seconds, some thousandths =>
    if whole.isEmpty && places.isEmpty then none else some (1000 * seconds + thousandths)
  | _, _ => none

/-- The value of octal digits. -/
def octal (digits : Text) : Nat := digits.foldl (fun n c => 8 * n + (c.toNat - '0'.toNat)) 0

/-- Whether a character is an octal digit. -/
def isOctal (c : Char) : Bool := '0' ≤ c && c ≤ '7'

/-- What a letter after a backslash stands for. -/
def escaped? (c : Char) : Option Char :=
  match c with
  | 'a' => some '\x07'
  | 'b' => some '\x08'
  | 'f' => some '\x0c'
  | 'n' => some '\n'
  | 'r' => some '\r'
  | 't' => some '\t'
  | 'v' => some '\x0b'
  | '\\' => some '\\'
  | _ => none

/-- A text with its escapes put in. -/
def unescape : Text → Text
  | [] => []
  | '\\' :: '0' :: a :: b :: c :: rest =>
    if isOctal a && isOctal b && isOctal c then
      Char.ofNat (octal [a, b, c] % 256) :: unescape rest
    else '\x00' :: unescape (a :: b :: c :: rest)
  | '\\' :: c :: rest =>
    match escaped? c with
    | some e => e :: unescape rest
    | none => '\\' :: c :: unescape rest
  | c :: rest => c :: unescape rest

/-- What `echo` prints. -/
def echoText : List Text → Text
  | ['-', 'n'] :: words => unescape (Text.join " " words)
  | words => unescape (Text.join " " words) ++ ['\n']

/-- One pass over a format: the text, and the words that are left. -/
def formatOnce : Text → List Text → Text × List Text
  | [], words => ([], words)
  | '%' :: '%' :: rest, words =>
    let (t, left) := formatOnce rest words
    ('%' :: t, left)
  | '%' :: c :: rest, words =>
    let value := words.head?.getD (if c = 'd' then ['0'] else [])
    let (t, left) := formatOnce rest words.tail
    ((if c = 'b' then unescape value else if c = 'c' then value.take 1 else value) ++ t, left)
  | '\\' :: c :: rest, words =>
    let (t, left) := formatOnce rest words
    match escaped? c with
    | some e => (e :: t, left)
    | none => (if c = '"' then '"' :: t else '\\' :: c :: t, left)
  | c :: rest, words =>
    let (t, left) := formatOnce rest words
    (c :: t, left)

/-- What `printf` prints: the format is used again as long as it takes words and some are
left; `passes` bounds how often. -/
def formatText (format : Text) : Nat → List Text → Text
  | 0, _ => []
  | passes + 1, words =>
    let (t, left) := formatOnce format words
    if left.isEmpty || left.length = words.length then t else t ++ formatText format passes left

/-- The number of a signal. -/
def signal? (name : Text) : Option Nat :=
  match number? name with
  | some n => some n
  | none =>
    let bare := if "SIG".toList.isPrefixOf name then name.drop 3 else name
    ([("HUP", 1), ("INT", 2), ("QUIT", 3), ("KILL", 9), ("USR1", 10), ("USR2", 12), ("PIPE", 13),
      ("ALRM", 14), ("TERM", 15)] : List (String × Nat)).lookup (String.ofList bare)

/-- Sends a signal to processes one after the other; only the script itself is there to get
one, and goes no further when it is ended by it. -/
def sendSignal (s : Setting) (signal : Nat) : Effect → List Text → Effect
  | e, [] => e
  | e, target :: rest =>
    if number? target = some s.processId then
      if signal = 0 then sendSignal s signal e rest else { e with flow := .killed signal }
    else sendSignal s signal (e.andComplaint 1 (s.name ++ ": 1: kill: No such process")) rest

/-- Runs `kill` with the name of a signal. -/
def killWith (s : Setting) (state : State) (name : Text) (targets : List Text) : Effect :=
  match signal? name with
  | some signal => sendSignal s signal { state } targets
  | none => .complaint state 2 (s.name ++ ": 1: kill: Illegal option -" ++ name)

/-- Runs `kill`. -/
def kill (s : Setting) (state : State) : List Text → Effect
  | ['-', 's'] :: name :: target :: rest => killWith s state name (target :: rest)
  | ('-' :: name) :: target :: rest => killWith s state name (target :: rest)
  | [] => .complaint state 2 (s.name ++ ": 1: kill: Usage: kill [-s sigspec | -signum] pid ...")
  | targets => killWith s state "TERM" targets

/-- Lets time pass, up to the limit. -/
def sleep (s : Setting) (state : State) (words : List Text) : Effect :=
  match words.mapM milliseconds? with
  | none => .complaint state 1 "sleep: invalid time interval"
  | some times =>
    let finish := times.foldl (· + ·) state.elapsed
    if finish < s.limit then { state := { state with elapsed := finish } }
    else { state := { state with elapsed := s.limit }, flow := .timeUp }

/-- Prints files, and what is read when none is named. -/
def cat (state : State) (input : ByteArray) (words : List Text) : Effect :=
  if words.isEmpty then { state, output := input }
  else words.foldl (fun e word =>
    if word = ['-'] then { e with output := e.output ++ input }
    else
      match readFile e.state word with
      | .ok content => { e with output := e.output ++ content }
      | .error fault => e.andComplaint 1 ("cat: " ++ word ++ ": " ++ plainReason fault)) { state }

/-- Whether a word is an option that is a letter after a dash. -/
def isOption (word : Text) : Bool := word.head? = some '-' && 1 < word.length

/-- A complaint about a path. -/
def pathComplaint (doing : Text) (path : Path) (fault : DiskFault) : Text :=
  doing ++ " '" ++ path ++ "': " ++ plainReason fault

/-- Takes a file away, or a directory when `deep` is set. With `force` a missing file is no
trouble. -/
def rmOne (force deep : Bool) (e : Effect) (path : Path) : Effect :=
  let refuse (fault : DiskFault) := e.andComplaint 1 (pathComplaint "rm: cannot remove" path fault)
  match e.state.disk.find false path, deep with
  | .ok (_, some (.directory _)), false => refuse .isADirectory
  | _, _ =>
    match e.state.disk.remove path with
    | .ok disk => { e with state := { e.state with disk } }
    | .error fault => if force && fault = .notFound then e else refuse fault

/-- Takes files away; directories only when asked to. -/
def rm (state : State) (words : List Text) : Effect :=
  let options := (words.filter isOption).flatten
  let deep := options.contains 'r' || options.contains 'R'
  (words.filter (!isOption ·)).foldl (rmOne (options.contains 'f') deep) { state }

/-- The file that a copy of `source` to `target` is: inside `target` when that is a directory. -/
def copyTarget (disk : Disk) (source target : Path) : Path :=
  if disk.isDirectory target then target.join (source.fileName?.getD source) else target

/-- Copies a file. -/
def cp (state : State) (words : List Text) : Effect :=
  match words.filter (!isOption ·) with
  | [source, target] =>
    match readFile state source with
    | .error fault => .complaint state 1 (pathComplaint "cp: cannot stat" source fault)
    | .ok content =>
      let path := copyTarget state.disk source target
      match writeFile state path content with
      | .ok state => { state }
      | .error fault =>
        .complaint state 1 (pathComplaint "cp: cannot create regular file" path fault)
  | _ => .complaint state 1 "cp: missing file operand"

/-- Moves a file. -/
def mv (state : State) (words : List Text) : Effect :=
  match words.filter (!isOption ·) with
  | [source, target] =>
    match state.disk.readBytes source with
    | .error fault => .complaint state 1 (pathComplaint "mv: cannot stat" source fault)
    | .ok content =>
      let path := copyTarget state.disk source target
      match (do (← state.disk.remove source).replace path content) with
      | .ok disk => { state := { state with disk } }
      | .error fault => .complaint state 1 (pathComplaint "mv: cannot move to" path fault)
  | _ => .complaint state 1 "mv: missing file operand"

/-- Makes a file that is missing. -/
def touchOne (e : Effect) (path : Path) : Effect :=
  if e.state.disk.contains path then e
  else
    match writeFile e.state path .empty with
    | .ok state => { e with state }
    | .error fault => e.andComplaint 1 (pathComplaint "touch: cannot touch" path fault)

/-- Makes files that are missing. -/
def touch (state : State) (words : List Text) : Effect :=
  (words.filter (!isOption ·)).foldl touchOne { state }

/-- Whether a path leads to a file, and whether it has content. -/
def fileSize? (disk : Disk) (path : Path) : Option Nat :=
  match disk.node path with
  | .ok (.file content) => some content.size
  | _ => none

/-- The truth of a condition. -/
def condition (disk : Disk) : List Text → Bool
  | [] => false
  | [word] => !word.isEmpty
  | ['!'] :: rest => !condition disk rest
  | [['-', 'e'], path] => disk.contains path
  | [['-', 'f'], path] => (fileSize? disk path).isSome
  | [['-', 'd'], path] => disk.isDirectory path
  | [['-', 's'], path] => (fileSize? disk path).any (0 < ·)
  | [['-', 'r'], path] | [['-', 'w'], path] => disk.contains path
  | [['-', 'n'], word] => !word.isEmpty
  | [['-', 'z'], word] => word.isEmpty
  | [a, ['='], b] => a = b
  | [a, ['!', '='], b] => a != b
  | _ => false

/-- The status of a condition. -/
def test (state : State) (words : List Text) : Effect :=
  { state, flow := .ended (if condition state.disk words then 0 else 1) }

/-- Prints a text. -/
def say (state : State) (t : Text) : Effect := { state, output := Text.encode t }

/-- What happens to a command that is none of those known here: files can be named, but none
is a program. -/
def unknown (s : Setting) (state : State) (name : Text) : Effect :=
  if name.contains '/' && state.disk.contains name then
    .complaint state 126 (s.name ++ ": 1: " ++ name ++ ": Permission denied")
  else .complaint state 127 (s.name ++ ": 1: " ++ name ++ ": not found")

/-- Runs a command that needs no other script; `last` is the status of the command before. -/
def runKnown (s : Setting) (last : Nat) (state : State) (input : ByteArray) (name : Text)
    (words : List Text) : Effect :=
  match String.ofList name with
  | "true" | ":" => { state }
  | "false" => { state, flow := .ended 1 }
  | "exit" =>
    match words with
    | [] => { state, flow := .exited last }
    | word :: _ =>
      match number? word with
      | some n => { state, flow := .exited (n % 256) }
      | none =>
        { Effect.complaint state 2 (s.name ++ ": 1: exit: Illegal number: " ++ word) with
          flow := .exited 2 }
  | "echo" => say state (echoText words)
  | "printf" =>
    match words with
    | [] => .complaint state 2 (s.name ++ ": 1: printf: usage: printf format [arg ...]")
    | format :: rest => say state (formatText format (rest.length + 1) rest)
  | "kill" => kill s state words
  | "sleep" => sleep s state words
  | "cat" => cat state input words
  | "rm" => rm state words
  | "cp" => cp state words
  | "mv" => mv state words
  | "touch" => touch state words
  | "test" => test state words
  | "[" => test state words.dropLast
  | _ => unknown s state name

end Shell

end KeyGloss
