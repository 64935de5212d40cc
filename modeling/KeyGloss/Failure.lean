import KeyGloss.Path
import KeyGloss.Number.Seconds

/-!
# Failures

Why a run, or the work on one file, did not come to its end.
-/

namespace KeyGloss

/-- The causes of a failure. -/
inductive Failure where
  /-- The directory to work in is missing. -/
  | rootNotFound (path : Path)
  /-- The directory to work in is something else. -/
  | notADirectory (path : Path)
  /-- No identifier module of that name is below the root. -/
  | moduleNotFound (name : Text) (root : Path)
  /-- An ignore pattern cannot be read. -/
  | invalidPattern (pattern reason : Text)
  /-- No relative import leads from one file to the other. -/
  | importPath (source target : Path)
  /-- A file cannot be cut into tokens. -/
  | tokenization (path : Path) (reason : Text)
  /-- A file cannot be read. -/
  | read (path : Path) (reason : Text)
  /-- A file cannot be written. -/
  | write (path : Path) (reason : Text)
  /-- The command run on a changed file failed; `output` is what it printed. -/
  | commandFailed (command : Text) (path : Path) (reason output : Text)
  /-- The command run on a changed file took too long. -/
  | timeout (command : Text) (path : Path) (milliseconds : Nat)
  deriving DecidableEq, Repr

namespace Failure

/-- The wording of a failure. -/
def message : Failure → Text
  | .rootNotFound path => "Source directory '" ++ path ++ "' does not exist"
  | .notADirectory path => "'" ++ path ++ "' is not a directory"
  | .moduleNotFound name root =>
    "Failed to find the " ++ name ++ " file under '" ++ root
      ++ "'.\nHint: generate it first with 'skiver generate --path src/" ++ name ++ "'"
  | .invalidPattern pattern reason =>
    "Invalid ignore pattern \"" ++ pattern ++ "\": " ++ reason
  | .importPath source target =>
    "Failed to compute import path from '" ++ source ++ "' to '" ++ target ++ "'"
  | .tokenization path reason => "Failed to tokenize '" ++ path ++ "': " ++ reason
  | .read path reason => "Failed to read '" ++ path ++ "': " ++ reason
  | .write path reason => "Failed to write '" ++ path ++ "': " ++ reason
  | .commandFailed command path reason _ =>
    "Command '" ++ command ++ "' failed on '" ++ path ++ "': " ++ reason
  | .timeout command path milliseconds =>
    "Command '" ++ command ++ "' timed out after " ++ Seconds.ofMilliseconds milliseconds
      ++ "s on '" ++ path ++ "'"

/-- Whether a failure ends the whole run; the others concern one file only. -/
def isFatal : Failure → Bool
  | .rootNotFound _ | .notADirectory _ | .moduleNotFound _ _ | .invalidPattern _ _
  | .importPath _ _ | .write _ _ => true
  | .tokenization _ _ | .read _ _ | .commandFailed _ _ _ _ | .timeout _ _ _ => false

end Failure

end KeyGloss
