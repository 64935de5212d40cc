import KeyGloss.Diagnostic
import KeyGloss.Hook
import KeyGloss.Scan
import KeyGloss.Strategy

/-!
# Injections

A run over a source tree. Everything that can be wrong with the request is found before any
file is looked at; then the files are worked on one by one in the order of their paths. A
file that cannot be read or cut into tokens is left alone with a diagnostic, and a file is
written as a whole or not at all.

What a file's work comes to is decided by `examine` from the path and the content of that file
alone; `visit` carries it out on a disk.
-/

namespace KeyGloss

/-- The request of a run. -/
structure Injection where
  root : Path
  mode : Mode := .comment
  /-- Only tell what would change. -/
  dryRun : Bool := false
  extensions : List Text := ["ts", "tsx"]
  ignores : List Text := ["**/node_modules/**"]
  /-- The command to run on every changed file. -/
  onReplace : Option Text := none
  timeoutMs : Nat := 30000
  /-- How many files may be worked on at once; no result depends on it. -/
  jobs : UInt64 := 0
  identifierModule : Text := "tKeys.ts"
  identifierAlias : Text := "tKeys"
  /-- The run was interrupted before it started a file. -/
  cancelled : Bool := false
  deriving DecidableEq, Repr

/-- What the work on one file comes to: the change, if any, with the new text of the file. -/
abbrev Work := Option (Change × Text)

namespace Injection

/-- The request for a root, which has to be a directory. -/
def ofRoot (d : Disk) (root : Path) (mode : Mode) : Except Failure Injection :=
  if !d.contains root then .error (.rootNotFound root)
  else if !d.isDirectory root then .error (.notADirectory root)
  else .ok { root, mode }

/-- The text by which a path is shown: the part below the root, if it is below. -/
def displayPath (i : Injection) (path : Path) : Text :=
  (Diagnostic.relativePath? i.root path).getD (Text.replaceChar '\\' "/" path)

/-- The strategy of a run and the module of keys, which is never changed itself. References
need the module; glosses only leave it alone. Keys are searched for whatever they are and however
many: that a table of keys can be too large to be searched for is left out. -/
def strategy (i : Injection) (keys : KeyMap) (d : Disk) :
    Except Failure (Strategy × Option Path) :=
  let found := Scan.findModule d i.root i.identifierModule
  match i.mode with
  | .comment => .ok (.gloss keys, found.toOption.map (·.path))
  | .identifierReplacement =>
    found.map fun file =>
      (.reference
        { keys, ruleSets := RuleSet.standard, importAs := i.identifierAlias
          modulePath := file.path }, some file.path)

/-- The paths that a run leaves alone. -/
def ignoreSet (i : Injection) (protectedPath : Option Path) : Except Failure IgnoreSet :=
  (IgnoreSet.ofEntries i.root i.ignores).map fun set =>
    match protectedPath with
    | some path => set.addPath path
    | none => set

/-- What the work on a file comes to, given its source afterwards and what was done. -/
def workOf (i : Injection) (path : Path) (source : Source) (outcome : Outcome) : Work :=
  if source.changed then
    some
      ({ path, displayPath := i.displayPath path, replacements := outcome.replacements
         importAdded := outcome.importAdded, formatted := false }, source.text)
  else none

/-- What the work on a file comes to, given what reading it gave: diagnostics, and the change
or the failure that ends the run. -/
def examine (i : Injection) (strategy : Strategy) (path : Path)
    (content : Except DiskFault Text) : List Diagnostic × Except Failure Work :=
  let skip (failure : Failure) : List Diagnostic × Except Failure Work :=
    ([(Diagnostic.unreadable (i.displayPath path) failure.message).relativize i.root], .ok none)
  match content with
  | .error fault => skip (.read path fault.message)
  | .ok t =>
    match Source.read path t with
    | .error failure => skip failure
    | .ok source =>
      let (source, diagnostics, result) := strategy.apply source
      (diagnostics.map (Diagnostic.relativize i.root), result.map (i.workOf path source))

/-- How far a run has come. -/
structure Progress where
  disk : Disk
  changes : List Change := []
  diagnostics : List Diagnostic := []

/-- Runs the command for changed files, if there is one. -/
def format (i : Injection) (hook : Option Hook) (p : Progress) (change : Change) : Progress :=
  match hook with
  | none => { p with changes := p.changes ++ [change] }
  | some hook =>
    match hook.run p.disk change.path with
    | (disk, .ok ()) =>
      { p with disk, changes := p.changes ++ [{ change with formatted := true }] }
    | (disk, .error failure) =>
      let output := match failure with
        | .commandFailed _ _ _ output => output
        | _ => []
      let diagnostic :=
        Diagnostic.commandFailed change.displayPath hook.command failure.message output
      { disk, changes := p.changes ++ [change]
        diagnostics := p.diagnostics ++ [diagnostic.relativize i.root] }

/-- Works on one file; a failure ends the run. -/
def visit (i : Injection) (strategy : Strategy) (hook : Option Hook) (p : Progress)
    (file : FileRef) : Progress × Except Failure Unit :=
  if i.cancelled then (p, .ok ())
  else
    let (diagnostics, result) := i.examine strategy file.path (p.disk.readFile file)
    let p := { p with diagnostics := p.diagnostics ++ diagnostics }
    match result with
    | .error failure => (p, .error failure)
    | .ok none => (p, .ok ())
    | .ok (some (change, t)) =>
      if i.dryRun then ({ p with changes := p.changes ++ [change] }, .ok ())
      else
        match p.disk.replacePlace file.place (Text.encode t) with
        | .error fault => (p, .error (.write file.path fault.message))
        | .ok disk => (i.format hook { p with disk } change, .ok ())

/-- Works on files one after the other, up to the first failure. -/
def visitAll (i : Injection) (strategy : Strategy) (hook : Option Hook) :
    Progress → List FileRef → Progress × Except Failure Unit
  | p, [] => (p, .ok ())
  | p, file :: rest =>
    match i.visit strategy hook p file with
    | (p, .ok ()) => visitAll i strategy hook p rest
    | (p, .error failure) => (p, .error failure)

/-- The command for changed files. -/
def hook (i : Injection) : Option Hook :=
  i.onReplace.bind fun command => Hook.ofCommand? command i.timeoutMs

/-- What a run over `scanned` files comes to. -/
def summarize (i : Injection) (scanned : Nat) (p : Progress) : Summary :=
  { filesScanned := scanned
    filesChanged := p.changes.length
    replacements := (p.changes.map (·.replacements)).foldr (· + ·) 0
    warnings := p.diagnostics.length
    dryRun := i.dryRun
    cancelled := i.cancelled
    changes := p.changes.mergeSort fun a b => a.path.le b.path
    diagnostics := Diagnostic.sorted p.diagnostics }

/-- What a run is going to work with: its strategy and its files. -/
def prepare (i : Injection) (keys : KeyMap) (d : Disk) : Except Failure (Strategy × Scan) := do
  let (strategy, protectedPath) ← i.strategy keys d
  let ignores ← i.ignoreSet protectedPath
  return (strategy, Scan.ofRoot d i.root i.extensions ignores)

/-- Runs a request: the disk afterwards, and the summary or the failure. -/
def run (i : Injection) (keys : KeyMap) (d : Disk) : Disk × Except Failure Summary :=
  match i.prepare keys d with
  | .error failure => (d, .error failure)
  | .ok (strategy, scan) =>
    match i.visitAll strategy i.hook { disk := d } scan.files with
    | (p, .ok ()) => (p.disk, .ok (i.summarize scan.files.length p))
    | (p, .error failure) => (p.disk, .error failure)

end Injection

end KeyGloss
