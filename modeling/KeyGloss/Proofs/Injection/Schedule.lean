import Mathlib.Logic.Function.Basic
import Mathlib.Logic.Relation
import KeyGloss.Proofs.ScannedFiles

/-!
# Runs that work on several files at once

The files of a run may be worked on at the same time. `Advances` says what a single worker can do next
while all others stand still: it looks at the mark of an interruption, reads its file, reports one
diagnostic after the other, and then writes a temporary file beside its own, bit by bit, which at last
takes the place of the file. The system may refuse a read as well as a write. `Reaches` is any
interleaving of such steps. There is no step for the command that can be run on changed files: without
one, a file is finished once it was replaced. Nobody but the workers writes to the disk.
-/

namespace KeyGloss

namespace Injection

/-- How far the work on one file has come. -/
inductive Task where
  | waiting
  /-- The run was interrupted before the file was started. -/
  | skipped
  /-- The file was started and is about to be read. -/
  | started
  /-- The file was read. Some diagnostics are still to be listed; `counted` tells whether the first of
  them was counted already. -/
  | reporting (counted : Bool) (pending : List Diagnostic) (result : Except Failure Work)
  /-- So many bytes of the new text stand in a temporary file. -/
  | writing (change : Change) (text : Text) (temporary : Place) (written : Nat)
  | failed (failure : Failure)
  | finished (change : Option Change)

namespace Task

/-- The change that the work came to. -/
def change? : Task → Option Change
  | .finished change => change
  | _ => none

/-- Whether no work is going on. -/
def isIdle : Task → Bool
  | .waiting | .skipped | .failed _ | .finished _ => true
  | .started | .reporting .. | .writing .. => false

/-- Whether the work ended without a failure. -/
def isDone : Task → Bool
  | .skipped | .finished _ => true
  | _ => false

theorem isDone_iff {task : Task} :
    task.isDone = true ↔ task = .skipped ∨ ∃ change, task = .finished change := by
  cases task <;> simp [isDone]

theorem isIdle_of_isDone {task : Task} (done : task.isDone = true) : task.isIdle = true := by
  rcases isDone_iff.mp done with rfl | ⟨change, rfl⟩ <;> rfl

end Task

/-- A run in the middle of its work: what all workers share, and how far each of them is. -/
structure State where
  disk : Disk
  /-- The run was interrupted. -/
  cancelled : Bool
  warnings : Nat := 0
  diagnostics : List Diagnostic := []
  task : FileRef → Task := fun _ => .waiting
  /-- The reads that the system refused although the disk would have allowed them. -/
  refused : FileRef → Option DiskFault := fun _ => none

namespace State

/-- The work on one file gets to another point. -/
def turn (s : State) (file : FileRef) (task : Task) : State :=
  { s with task := Function.update s.task file task }

/-- What a worker gets to see of its file in a run that began on `d`. -/
def content (s : State) (d : Disk) (file : FileRef) : Except DiskFault Text :=
  match s.refused file with
  | some fault => .error fault
  | none => d.readFile file

variable {s : State} {file other : FileRef} {task : Task}

@[simp] theorem turn_task_self : (s.turn file task).task file = task := Function.update_self ..

theorem turn_task_of_ne (different : other ≠ file) : (s.turn file task).task other = s.task other :=
  Function.update_of_ne different ..

@[simp] theorem turn_disk : (s.turn file task).disk = s.disk := rfl

@[simp] theorem turn_cancelled : (s.turn file task).cancelled = s.cancelled := rfl

@[simp] theorem turn_warnings : (s.turn file task).warnings = s.warnings := rfl

@[simp] theorem turn_diagnostics : (s.turn file task).diagnostics = s.diagnostics := rfl

@[simp] theorem turn_refused : (s.turn file task).refused = s.refused := rfl

theorem content_of_allowed {d : Disk} (allowed : s.refused file = none) :
    s.content d file = d.readFile file := by
  rw [content, allowed]

theorem content_congr {s' : State} {d : Disk} (same : s'.refused file = s.refused file) :
    s'.content d file = s.content d file := by
  rw [content, content, same]

@[simp] theorem turn_turn {next : Task} : (s.turn file task).turn file next = s.turn file next := by
  simp [turn]

end State

/-- The state before any work. -/
def initial (i : Injection) (d : Disk) : State := { disk := d, cancelled := i.cancelled }

/-- What a worker can do next, or someone who interrupts the run. Reads that the disk allows and writes
are refused only if `refusing` is set, and then for any reason. -/
inductive Advances (i : Injection) (strategy : Strategy) (files : List FileRef) (refusing : Bool) :
    State → State → Prop
  | interrupt (s : State) : Advances i strategy files refusing s { s with cancelled := true }
  | skip {s : State} {file : FileRef} (member : file ∈ files) (now : s.task file = .waiting)
      (interrupted : s.cancelled = true) : Advances i strategy files refusing s (s.turn file .skipped)
  | start {s : State} {file : FileRef} (member : file ∈ files) (now : s.task file = .waiting)
      (going : s.cancelled = false) : Advances i strategy files refusing s (s.turn file .started)
  | read {s : State} {file : FileRef} {pending : List Diagnostic} {result : Except Failure Work}
      (member : file ∈ files) (now : s.task file = .started)
      (found : i.examine strategy file.path (s.disk.readFile file) = (pending, result)) :
      Advances i strategy files refusing s (s.turn file (.reporting false pending result))
  | unread {s : State} {file : FileRef} {pending : List Diagnostic} {result : Except Failure Work}
      (member : file ∈ files) (now : s.task file = .started) (refused : refusing = true)
      (fault : DiskFault)
      (found : i.examine strategy file.path (.error fault) = (pending, result)) :
      Advances i strategy files refusing s
        ({ s with refused := Function.update s.refused file (some fault) }.turn file
          (.reporting false pending result))
  | count {s : State} {file : FileRef} {first : Diagnostic} {pending : List Diagnostic}
      {result : Except Failure Work} (member : file ∈ files)
      (now : s.task file = .reporting false (first :: pending) result) :
      Advances i strategy files refusing s
        ({ s with warnings := s.warnings + 1 }.turn file (.reporting true (first :: pending) result))
  | push {s : State} {file : FileRef} {first : Diagnostic} {pending : List Diagnostic}
      {result : Except Failure Work} (member : file ∈ files)
      (now : s.task file = .reporting true (first :: pending) result) :
      Advances i strategy files refusing s
        ({ s with diagnostics := s.diagnostics ++ [first] }.turn file
          (.reporting false pending result))
  | fail {s : State} {file : FileRef} {failure : Failure} (member : file ∈ files)
      (now : s.task file = .reporting false [] (.error failure)) :
      Advances i strategy files refusing s (s.turn file (.failed failure))
  | leave {s : State} {file : FileRef} (member : file ∈ files)
      (now : s.task file = .reporting false [] (.ok none)) :
      Advances i strategy files refusing s (s.turn file (.finished none))
  | preview {s : State} {file : FileRef} {change : Change} {text : Text} (member : file ∈ files)
      (now : s.task file = .reporting false [] (.ok (some (change, text))))
      (dry : i.dryRun = true) :
      Advances i strategy files refusing s (s.turn file (.finished (some change)))
  | stage {s : State} {file : FileRef} {change : Change} {text name : Text} (member : file ∈ files)
      (now : s.task file = .reporting false [] (.ok (some (change, text))))
      (wet : i.dryRun = false) (valid : IsEntryName name)
      (fresh : s.disk.look (file.place.dropLast ++ [name]) = none) :
      Advances i strategy files refusing s
        ({ s with disk := s.disk.put (file.place.dropLast ++ [name]) (.file .empty) }.turn file
          (.writing change text (file.place.dropLast ++ [name]) 0))
  | fill {s : State} {file : FileRef} {change : Change} {text : Text} {temporary : Place}
      {written more : Nat} (member : file ∈ files)
      (now : s.task file = .writing change text temporary written) (grows : written ≤ more)
      (within : more ≤ (Text.encode text).size) :
      Advances i strategy files refusing s
        ({ s with disk := s.disk.put temporary (.file ((Text.encode text).extract 0 more)) }.turn file
          (.writing change text temporary more))
  | commit {s : State} {file : FileRef} {change : Change} {text : Text} {temporary : Place}
      (member : file ∈ files)
      (now : s.task file = .writing change text temporary (Text.encode text).size)
      (noHook : i.hook = none) :
      Advances i strategy files refusing s
        ({ s with disk := s.disk.rename temporary file.place }.turn file (.finished (some change)))
  | refuse {s : State} {file : FileRef} {change : Change} {text : Text} (member : file ∈ files)
      (now : s.task file = .reporting false [] (.ok (some (change, text))))
      (wet : i.dryRun = false) (refused : refusing = true) (reason : Text) :
      Advances i strategy files refusing s (s.turn file (.failed (.write file.path reason)))
  /-- A temporary file that is given up may be left behind. -/
  | abandon {s : State} {file : FileRef} {change : Change} {text : Text} {temporary : Place}
      {written : Nat} {disk : Disk} (member : file ∈ files)
      (now : s.task file = .writing change text temporary written) (refused : refusing = true)
      (reason : Text)
      (left : disk = s.disk ∨ disk = { s.disk with tree := s.disk.tree.erase temporary }) :
      Advances i strategy files refusing s
        ({ s with disk }.turn file (.failed (.write file.path reason)))

/-- Any interleaving of steps. -/
abbrev Reaches (i : Injection) (strategy : Strategy) (files : List FileRef) (refusing : Bool) :
    State → State → Prop :=
  Relation.ReflTransGen (Advances i strategy files refusing)

/-- The summary of a run that is over. -/
def State.summary (s : State) (i : Injection) (files : List FileRef) : Summary :=
  { i.summarize files.length
      { disk := s.disk, changes := files.filterMap fun file => (s.task file).change?
        diagnostics := s.diagnostics } with
    warnings := s.warnings, cancelled := s.cancelled }

/-- What a run gives back once no worker is busy: its summary when all files are done, or the failure
of a file. After a failure the run need not start any other file. -/
inductive State.Returns (s : State) (i : Injection) (files : List FileRef) :
    Except Failure Summary → Prop
  | summary (done : ∀ file ∈ files, (s.task file).isDone = true) :
      s.Returns i files (.ok (s.summary i files))
  | failure {file : FileRef} {failure : Failure} (member : file ∈ files)
      (failed : s.task file = .failed failure)
      (idle : ∀ other ∈ files, (s.task other).isIdle = true) : s.Returns i files (.error failure)

end Injection

end KeyGloss
