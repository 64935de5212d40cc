import KeyGloss.Diagnostic
import KeyGloss.Report.Style
import KeyGloss.Text.Width

/-!
# Reports

The text that shows the result of a run: the diagnostics with the lines they are about,
the changed files, and one line that sums up. `color` tells whether to style the text.
-/

namespace KeyGloss

namespace Report

/-- The mark of a run without trouble. -/
def successMark : Text := "✓"

/-- The mark of a run with trouble. -/
def failureMark : Text := "✘"

/-- A number with the noun that goes with it. -/
def counted (n : Nat) (one many : Text) : Text :=
  Text.ofNat n ++ ' ' :: (if n = 1 then one else many)

/-- One line of a report. -/
def line (t : Text) : Text := t ++ ['\n']

/-- The bar beside a source line, after blanks of some width. -/
def gutter (color : Bool) (width : Nat) (number : Text) : Text := padLeft width number ++ ' ' ::
  paint color [.blue] "|"

/-- The source line of a mismatch with a caret below the literal. -/
def sourceLine (color : Bool) (width : Nat) (issue : Mismatch) : Text :=
  let number := paint color [.blue] (padLeft width (Text.ofNat issue.line))
  let shift := Text.width (issue.sourceLine.take (issue.column - 1))
  line (gutter color width [])
    ++ line (number ++ ' ' :: paint color [.blue] "|" ++ ' ' :: issue.sourceLine)
    ++ line (gutter color width [] ++ ' ' :: List.replicate shift ' '
      ++ paint color [.yellow] "^")

/-- A note below a diagnostic. -/
def note (color : Bool) (width : Nat) (label : Text) (content : Text) : Text :=
  line (padLeft width [] ++ ' ' :: paint color [.blue] "=" ++ ' ' :: label ++ ' ' :: content)

/-- Where a diagnostic is, with the source line when it has one. -/
def location (color : Bool) (width : Nat) (d : Diagnostic) : Text :=
  let arrow : Text := "  " ++ paint color [.blue] "-->" ++ [' ']
  match d with
  | .mismatch issue =>
    line (arrow ++ issue.filePath ++ ':' :: Text.ofNat issue.line ++ ':' :: Text.ofNat issue.column)
      ++ sourceLine color width issue
  | _ => line (arrow ++ d.filePath)

/-- The text of one diagnostic. -/
def diagnostic (color : Bool) (width : Nat) (d : Diagnostic) : Text :=
  line (paint color [.bold, .yellow] "warning" ++ ": \"" ++ d.message ++ "\"  "
      ++ paint color [.dimmed, .cyan] d.rule.label)
    ++ location color width d
    ++ d.details.flatMap (note color width (paint color [.bold] "note:"))
    ++ note color width (paint color [.bold, .cyan] "hint:") d.hint
    ++ line []

/-- The width of the line numbers of diagnostics: that of the largest, and one when there
is none. -/
def numberWidth (diagnostics : List Diagnostic) : Nat :=
  let numbers := diagnostics.filterMap fun d =>
    match d with
    | .mismatch issue => some issue.line
    | _ => none
  match numbers.max? with
  | some n => (Text.ofNat n).length
  | none => 1

/-- The text of all diagnostics. -/
def diagnostics (color : Bool) (ds : List Diagnostic) : Text :=
  ds.flatMap (diagnostic color (numberWidth ds))

/-- The line of one changed file. -/
def change (color dryRun : Bool) (c : Change) : Text :=
  let verb : Text := if dryRun then "Would update" else "Updated"
  let parts := [counted c.replacements "replacement" "replacements"]
    ++ (if c.importAdded then [("import added" : Text)] else [])
    ++ (if c.formatted then [("formatted" : Text)] else [])
  line (paint color [.bold, .green] (padLeft 12 verb) ++ ' ' :: c.displayPath ++ " ("
    ++ Text.join ", " parts ++ ")")

/-- What the last line says. -/
def conclusion (s : Summary) : Text :=
  "Scanned " ++ counted s.filesScanned "file" "files" ++ ", "
    ++ counted s.filesChanged "file" "files"
    ++ (if s.dryRun then " would change, " else " changed, ")
    ++ counted s.warnings "warning" "warnings"

/-- The last line with its mark and colour. -/
def conclusionLine (color : Bool) (s : Summary) : Text :=
  if s.cancelled then
    line (paint color [.red] failureMark ++ ' ' :: paint color [.red] (conclusion s) ++ ' ' ::
      paint color [.bold, .red] "(interrupted)")
  else if 0 < s.warnings then
    line (paint color [.yellow] failureMark ++ ' ' :: paint color [.yellow] (conclusion s))
  else line (paint color [.green] successMark ++ ' ' :: paint color [.green] (conclusion s))

/-- The text of a summary. -/
def summary (color : Bool) (s : Summary) : Text :=
  diagnostics color s.diagnostics
    ++ s.changes.flatMap (change color s.dryRun)
    ++ (if s.changes.isEmpty && s.diagnostics.isEmpty then [] else line [])
    ++ conclusionLine color s
    ++ (if s.dryRun && 0 < s.filesChanged then
      line (paint color [.bold] "note:" ++ " dry run, no files were written") else [])

/-- The text about message files that could not be loaded: one line for each when `verbose`
is set, and only their number otherwise. -/
def messageWarnings (color verbose : Bool) (warnings : List (Text × Text)) : Text :=
  let label := paint color [.bold, .yellow] "warning:"
  if warnings.isEmpty then []
  else if verbose then
    warnings.flatMap fun (file, reason) => line (label ++ ' ' :: file ++ ": " ++ reason)
  else
    line (label ++ ' ' :: Text.ofNat warnings.length
      ++ " locale file(s) could not be loaded (use " ++ paint color [.cyan] "-v" ++ " for details)")

end Report

end KeyGloss
