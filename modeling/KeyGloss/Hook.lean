import KeyGloss.Failure
import KeyGloss.Shell.Run

/-!
# Commands for changed files

A project can name a command, such as a formatter, that is run on every file after it was
changed. The file is the last word of the command, as one word whatever its name holds.
-/

namespace KeyGloss

/-- A command for changed files and the time that it may take. -/
structure Hook where
  command : Text
  timeoutMs : Nat
  deriving DecidableEq, Repr

namespace Hook

/-- The hook of a command; blanks around it do not count, and a blank command is none. -/
def ofCommand? (command : Text) (timeoutMs : Nat) : Option Hook :=
  if command.trim.isEmpty then none else some { command := command.trim, timeoutMs }

/-- The script that is run, in which the file is the first parameter. -/
def script (h : Hook) : Text := h.command ++ " \"$1\""

/-- The name under which the script is run. -/
def scriptName : Text := "skiver"

/-- The failure of a script that has printed something. -/
def failure (h : Hook) (file : Path) (reason : Text) (printed : Shell.Printed) : Failure :=
  .commandFailed h.command file reason
    (Text.decodeShown printed.output.toList ++ Text.decodeShown printed.errors.toList)

/-- What the end of a script means for the file. -/
def verdict (h : Hook) (file : Path) (s : Shell.Session) : Except Failure Unit :=
  match s.flow with
  | .ended 0 | .exited 0 => .ok ()
  | .ended n | .exited n =>
    .error (h.failure file ("exited with status " ++ Text.ofNat n) s.printed)
  | .killed _ => .error (h.failure file "terminated by signal" s.printed)
  | .timeUp => .error (.timeout h.command file h.timeoutMs)

/-- Runs the command on a file. -/
def run (h : Hook) (d : Disk) (file : Path) : Disk × Except Failure Unit :=
  let s := Shell.run { name := scriptName, parameters := [file], limit := h.timeoutMs } h.script d
  (s.state.disk, h.verdict file s)

end Hook

end KeyGloss
