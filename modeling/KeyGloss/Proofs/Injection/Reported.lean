import Mathlib.Data.List.Count
import KeyGloss.Proofs.Injection.Sound

/-!
# What the workers have reported

All workers add to one list of diagnostics. As long as no two files are displayed by the same path, the
diagnostics under one path come from one worker and stand in the order in which it found them
(`Reported.order`), whatever the others do in between. Each diagnostic is counted once
(`Reported.warnings`). All this is about runs in which the system refuses nothing that the disk allows.
-/

namespace KeyGloss

namespace Injection

namespace Task

/-- Whether a worker has counted a diagnostic that is not listed yet. -/
def hasCounted : Task → Bool
  | .reporting counted _ _ => counted
  | _ => false

/-- The diagnostics that a worker has listed, of all that it finds. -/
def listed (found : List Diagnostic) : Task → List Diagnostic
  | .waiting | .skipped | .started => []
  | .reporting _ pending _ => found.take (found.length - pending.length)
  | .writing .. | .failed _ | .finished _ => found

theorem listed_reporting {counted : Bool} {before pending : List Diagnostic}
    {result : Except Failure Work} :
    (Task.reporting counted pending result).listed (before ++ pending) = before := by
  simp [listed]

end Task

/-- Diagnostics of different files name different paths. -/
def ReportsApart (i : Injection) (strategy : Strategy) (d : Disk) (files : List FileRef) : Prop :=
  ∀ file ∈ files, ∀ other ∈ files, ∀ first ∈ (i.findings strategy d file).1,
    ∀ second ∈ (i.findings strategy d other).1, first.filePath = second.filePath → file = other

/-- What holds of the reports between the steps of a run that began on `d`. -/
structure Reported (i : Injection) (strategy : Strategy) (d : Disk) (files : List FileRef)
    (s : State) : Prop where
  warnings : s.warnings = s.diagnostics.length + files.countP fun file => (s.task file).hasCounted
  /-- Nothing is listed that no worker has found. -/
  listed : ∀ diagnostic ∈ s.diagnostics, ∃ file ∈ files, diagnostic ∈ (i.findings strategy d file).1
  /-- The diagnostics under one path are those that its worker has listed, in their order. -/
  order : ∀ file ∈ files, ∀ diagnostic ∈ (i.findings strategy d file).1,
    s.diagnostics.filter (·.filePath = diagnostic.filePath) =
      ((s.task file).listed (i.findings strategy d file).1).filter
        (·.filePath = diagnostic.filePath)
  skipped : ∀ file ∈ files, s.task file = .skipped → s.cancelled = true
  cancelled : i.cancelled = true → s.cancelled = true

/-- One element of a list without repetitions is judged anew. -/
theorem countP_update {α β : Type} [DecidableEq α] (p : β → Bool) (f : α → β) (a : α) (b : β)
    {l : List α} (nodup : l.Nodup) (member : a ∈ l) :
    l.countP (fun x => p (Function.update f a b x)) + (p (f a)).toNat =
      l.countP (fun x => p (f x)) + (p b).toNat := by
  induction l with
  | nil => cases member
  | cons x l ih =>
    obtain ⟨fresh, rest⟩ := List.nodup_cons.mp nodup
    rw [List.countP_cons, List.countP_cons]
    by_cases here : x = a
    · subst here
      have same : l.countP (fun y => p (Function.update f x b y)) = l.countP fun y => p (f y) := by
        refine List.countP_congr fun y inside => ?_
        rw [Function.update_of_ne (by rintro rfl; exact fresh inside)]
      rw [same, Function.update_self]
      cases p b <;> cases p (f x) <;> simp
    · rw [Function.update_of_ne here]
      have inside : a ∈ l := (List.mem_cons.mp member).resolve_left (Ne.symm here)
      have := ih rest inside
      omega

variable {i : Injection} {strategy : Strategy} {d : Disk} {files : List FileRef}
  {s s' : State} {file : FileRef} {task : Task}

theorem reported_initial : Reported i strategy d files (i.initial d) where
  warnings := by simp [initial, Task.hasCounted]
  listed := by simp [initial]
  order file _ diagnostic _ := by simp [initial, Task.listed]
  skipped _ _ now := by cases now
  cancelled := id

namespace Reported

variable (lists : Scan.Lists d files) (reported : Reported i strategy d files s)

include reported

theorem skipped_update (tasks : s'.task = Function.update s.task file task)
    (cancelled : s'.cancelled = s.cancelled) (skips : task = .skipped → s.cancelled = true) :
    ∀ other ∈ files, s'.task other = .skipped → s'.cancelled = true := by
  intro other inside now
  rw [tasks] at now
  rw [cancelled]
  by_cases same : other = file
  · subst same
    rw [Function.update_self] at now
    exact skips now
  · rw [Function.update_of_ne same] at now
    exact reported.skipped other inside now

include lists

/-- A step that lists nothing and counts nothing. -/
theorem silent (member : file ∈ files) (tasks : s'.task = Function.update s.task file task)
    (warnings : s'.warnings = s.warnings) (diagnostics : s'.diagnostics = s.diagnostics)
    (cancelled : s'.cancelled = s.cancelled)
    (counted : task.hasCounted = (s.task file).hasCounted)
    (listed : task.listed (i.findings strategy d file).1 =
      (s.task file).listed (i.findings strategy d file).1)
    (skips : task = .skipped → s.cancelled = true) : Reported i strategy d files s' := by
  have self : s'.task file = task := by rw [tasks, Function.update_self]
  have others : ∀ {other}, other ≠ file → s'.task other = s.task other := fun different => by
    rw [tasks, Function.update_of_ne different]
  refine ⟨?_, ?_, ?_, ?_, ?_⟩
  · have count := countP_update Task.hasCounted s.task file task lists.nodup member
    rw [counted] at count
    rw [warnings, diagnostics, reported.warnings, tasks]
    omega
  · rw [diagnostics]
    exact reported.listed
  · intro other inside diagnostic found
    rw [diagnostics, reported.order other inside diagnostic found]
    by_cases same : other = file
    · subst same
      rw [self, listed]
    · rw [others same]
  · exact reported.skipped_update tasks cancelled skips
  · intro before
    rw [cancelled]
    exact reported.cancelled before

theorem count {first : Diagnostic} {pending : List Diagnostic} {result : Except Failure Work}
    (member : file ∈ files) (now : s.task file = .reporting false (first :: pending) result) :
    Reported i strategy d files
      ({ s with warnings := s.warnings + 1 }.turn file (.reporting true (first :: pending) result)) := by
  refine ⟨?_, reported.listed, ?_, ?_, reported.cancelled⟩
  · have count := countP_update Task.hasCounted s.task file (.reporting true (first :: pending) result)
      lists.nodup member
    have warnings := reported.warnings
    simp only [now, Task.hasCounted, Bool.toNat_false, Bool.toNat_true, Nat.add_zero] at count
    simp only [State.turn, Task.hasCounted, count]
    simp only [Task.hasCounted] at warnings
    omega
  · intro other inside diagnostic found
    rw [State.turn_diagnostics, reported.order other inside diagnostic found]
    by_cases same : other = file
    · subst same
      rw [State.turn_task_self, now]
      rfl
    · rw [State.turn_task_of_ne same]
  · exact reported.skipped_update rfl rfl (by rintro ⟨⟩)

/-- One diagnostic more. Under its path it comes after those of the same worker, and under the paths of
other files nothing is new. -/
theorem push {before pending : List Diagnostic} {first : Diagnostic} {result : Except Failure Work}
    (apart : ReportsApart i strategy d files) (member : file ∈ files)
    (now : s.task file = .reporting true (first :: pending) result)
    (findings : i.findings strategy d file = (before ++ first :: pending, result)) :
    Reported i strategy d files
      ({ s with diagnostics := s.diagnostics ++ [first] }.turn file
        (.reporting false pending result)) := by
  have mine : first ∈ (i.findings strategy d file).1 := by simp [findings]
  refine ⟨?_, ?_, ?_, ?_, reported.cancelled⟩
  · have count := countP_update Task.hasCounted s.task file (.reporting false pending result)
      lists.nodup member
    have warnings := reported.warnings
    simp only [now, Task.hasCounted, Bool.toNat_false, Bool.toNat_true, Nat.add_zero] at count
    simp only [State.turn, Task.hasCounted, List.length_append, List.length_singleton]
    simp only [Task.hasCounted] at warnings
    omega
  · intro diagnostic inside
    rcases List.mem_append.mp inside with old | new
    · exact reported.listed diagnostic old
    · obtain rfl := List.mem_singleton.mp new
      exact ⟨file, member, mine⟩
  · intro other inside diagnostic found
    rw [State.turn_diagnostics, List.filter_append, reported.order other inside diagnostic found]
    by_cases same : other = file
    · subst same
      have regrouped : before ++ first :: pending = (before ++ [first]) ++ pending := by simp
      rw [State.turn_task_self, now, findings]
      rw [Task.listed_reporting, regrouped, Task.listed_reporting, List.filter_append]
    · have different : first.filePath ≠ diagnostic.filePath := by
        intro equal
        exact same (apart file member other inside first mine diagnostic found equal).symm
      rw [State.turn_task_of_ne same]
      simp [different]
  · exact reported.skipped_update rfl rfl (by rintro ⟨⟩)

/-- The step lemma. -/
theorem advances (apart : ReportsApart i strategy d files)
    (sound : Sound i strategy d files false s) (step : Advances i strategy files false s s') :
    Reported i strategy d files s' := by
  cases step with
  | interrupt =>
    exact ⟨reported.warnings, reported.listed, reported.order, fun _ _ _ => rfl, fun _ => rfl⟩
  | skip member now interrupted =>
    exact reported.silent lists member rfl rfl rfl rfl (by rw [now]; rfl) (by rw [now]; rfl)
      fun _ => interrupted
  | start member now _ =>
    exact reported.silent lists member rfl rfl rfl rfl (by rw [now]; rfl) (by rw [now]; rfl)
      (by rintro ⟨⟩)
  | @read file pending result member now found =>
    have findings : i.findings strategy d file = ([] ++ pending, result) := by
      rw [findings, ← sound.readFile_eq lists member (by simp [now, Task.Replaces])]
      exact found
    refine reported.silent lists member rfl rfl rfl rfl (by rw [now]; rfl) ?_ (by rintro ⟨⟩)
    rw [findings, Task.listed_reporting, now]
    rfl
  | unread member now refused fault found => cases refused
  | count member now => exact reported.count lists member now
  | @push file first pending result member now =>
    obtain ⟨before, examined⟩ := sound.examine_of_reporting member now
    rw [sound.content_of_never rfl] at examined
    exact reported.push lists apart member now examined
  | fail member now =>
    exact reported.silent lists member rfl rfl rfl rfl (by rw [now]; rfl)
      (by rw [now]; simp [Task.listed]) (by rintro ⟨⟩)
  | leave member now =>
    exact reported.silent lists member rfl rfl rfl rfl (by rw [now]; rfl)
      (by rw [now]; simp [Task.listed]) (by rintro ⟨⟩)
  | preview member now dry =>
    exact reported.silent lists member rfl rfl rfl rfl (by rw [now]; rfl)
      (by rw [now]; simp [Task.listed]) (by rintro ⟨⟩)
  | stage member now wet valid fresh =>
    exact reported.silent lists member rfl rfl rfl rfl (by rw [now]; rfl)
      (by rw [now]; simp [Task.listed]) (by rintro ⟨⟩)
  | fill member now grows within =>
    exact reported.silent lists member rfl rfl rfl rfl (by rw [now]; rfl)
      (by rw [now]; simp [Task.listed]) (by rintro ⟨⟩)
  | commit member now noHook =>
    exact reported.silent lists member rfl rfl rfl rfl (by rw [now]; rfl)
      (by rw [now]; simp [Task.listed]) (by rintro ⟨⟩)
  | refuse member now wet refused reason => cases refused
  | abandon member now refused reason left => cases refused

end Reported

/-- The run lemma. -/
theorem reported_of_reaches (lists : Scan.Lists d files) (apart : ReportsApart i strategy d files)
    (reached : Reaches i strategy files false (i.initial d) s) :
    Reported i strategy d files s := by
  induction reached with
  | refl => exact reported_initial
  | tail before step ih =>
    exact ih.advances lists apart (sound_of_reaches lists before) step

end Injection

end KeyGloss
