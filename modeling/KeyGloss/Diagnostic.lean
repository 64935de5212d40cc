import KeyGloss.Path
import KeyGloss.Token.Basic

/-!
# Diagnostics and summaries

Problems that a run survives: the literal or the file concerned was left alone and
the run went on. Diagnostics are reported by file, then line, then rule; those that
agree in all three keep the order in which they arose. A summary says what a run did: the
files it changed, the diagnostics it made, and the numbers that a report shows.
-/

namespace KeyGloss

/-- A literal holds a known key, but no rule set accepts its surroundings. -/
structure Mismatch where
  filePath : Text
  line : Nat
  column : Nat
  sourceLine : Text
  key : Text
  /-- The tokens around the literal. -/
  window : List Token
  /-- For each rule set its name and its first restriction that does not hold. -/
  failures : List (Text × Text)
  deriving DecidableEq, Repr

/-- A problem that a run survives. -/
inductive Diagnostic where
  /-- A key was found where no rule set accepts it. -/
  | mismatch (issue : Mismatch)
  /-- A file could not be read or cut into tokens. -/
  | unreadable (filePath reason : Text)
  /-- The command run on a changed file failed. -/
  | commandFailed (filePath command reason output : Text)
  deriving DecidableEq, Repr

/-- The rules that diagnostics belong to. -/
inductive Rule where
  | restrictionMismatch
  | tokenizeError
  | onReplaceFailed
  deriving DecidableEq, Repr

namespace Rule

/-- The name of a rule. -/
def label : Rule → Text
  | .restrictionMismatch => "restriction-mismatch"
  | .tokenizeError => "tokenize-error"
  | .onReplaceFailed => "on-replace-failed"

/-- The place of a rule among diagnostics of one line. -/
def rank : Rule → Nat
  | .restrictionMismatch => 0
  | .tokenizeError => 1
  | .onReplaceFailed => 2

end Rule

namespace Diagnostic

/-- The file a diagnostic is about. -/
def filePath : Diagnostic → Text
  | .mismatch issue => issue.filePath
  | .unreadable filePath _ => filePath
  | .commandFailed filePath _ _ _ => filePath

/-- The diagnostic about another file. -/
def withFilePath (filePath : Text) : Diagnostic → Diagnostic
  | .mismatch issue => .mismatch { issue with filePath := filePath }
  | .unreadable _ reason => .unreadable filePath reason
  | .commandFailed _ command reason output => .commandFailed filePath command reason output

/-- The rule a diagnostic belongs to. -/
def rule : Diagnostic → Rule
  | .mismatch _ => .restrictionMismatch
  | .unreadable _ _ => .tokenizeError
  | .commandFailed _ _ _ _ => .onReplaceFailed

/-- The line a diagnostic is sorted by; zero when it is about a whole file. -/
def line : Diagnostic → Nat
  | .mismatch issue => issue.line
  | _ => 0

/-- The main text of a diagnostic. -/
def message : Diagnostic → Text
  | .mismatch issue => issue.key
  | .unreadable _ reason => reason
  | .commandFailed _ _ reason _ => reason

/-- What became of the literal or the file. -/
def hint : Diagnostic → Text
  | .mismatch _ =>
    "found key, but no call-site rule matched; the literal was left unchanged"
  | .unreadable _ _ => "the file was skipped"
  | .commandFailed _ command _ _ =>
    "the file was written but '" ++ command ++ "' did not complete"

/-- How many lines of a failed command's output are shown. -/
def shownOutputLines : Nat := 5

/-- The notes that explain a diagnostic. -/
def details : Diagnostic → List Text
  | .mismatch issue =>
    ("tokens: " ++ Text.replaceChar '\n' "↵" (Token.concat issue.window)) ::
      issue.failures.map fun (set, restriction) => set ++ ": expected " ++ restriction
  | .unreadable _ _ => []
  | .commandFailed _ _ _ output =>
    (((Text.lines output).filter fun line => !line.trim.isEmpty).take shownOutputLines).map
      fun line => "output: " ++ line

/-- The order of diagnostics in a report. -/
def le (a b : Diagnostic) : Bool :=
  if a.filePath = b.filePath then
    if a.line = b.line then a.rule.rank ≤ b.rule.rank else a.line ≤ b.line
  else Text.le a.filePath b.filePath

/-- Diagnostics in the order of a report. -/
def sorted (diagnostics : List Diagnostic) : List Diagnostic := diagnostics.mergeSort le

/-- The text by which a path below `root` is shown: the part below the root with
forward slashes; no text for other paths. -/
def relativePath? (root path : Path) : Option Text :=
  (path.below? root).map (Text.replaceChar '\\' "/")

/-- The diagnostic with its file named relative to `root`, when the file is below it. -/
def relativize (root : Path) (d : Diagnostic) : Diagnostic :=
  match relativePath? root d.filePath with
  | some relative => d.withFilePath relative
  | none => d

end Diagnostic

/-- A file that was changed, or would have been. -/
structure Change where
  path : Path
  /-- The path below the root, as reports show it. -/
  displayPath : Text
  replacements : Nat
  importAdded : Bool
  /-- Whether the command for changed files was run on it with success. -/
  formatted : Bool
  deriving DecidableEq, Repr

/-- The result of a run. -/
structure Summary where
  filesScanned : Nat := 0
  filesChanged : Nat := 0
  replacements : Nat := 0
  warnings : Nat := 0
  dryRun : Bool := false
  /-- The run was interrupted, and files not yet started were left alone. -/
  cancelled : Bool := false
  changes : List Change := []
  diagnostics : List Diagnostic := []
  deriving DecidableEq, Repr

end KeyGloss
