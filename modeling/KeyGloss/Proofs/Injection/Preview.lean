import KeyGloss.Proofs.Injection.Whole

/-!
# Previews

A dry run is a faithful preview of the run that writes. Taken file by file, the two stay side by side
(`Beside`): the disk that is written to still shows every file that waits as the other disk does.
Taken as interleavings, each run of the one kind has a run of the other kind that counts, lists and
returns the same (`reaches_preview`, `reaches_carriedOut`); a worker that writes corresponds to one
that is about to finish.
-/

namespace KeyGloss

/-- The summary as that of a dry run. -/
def Summary.asPreview (summary : Summary) : Summary := { summary with dryRun := true }

namespace Injection

/-- The request as a dry run. -/
def preview (i : Injection) : Injection := { i with dryRun := true }

/-- The request as a run that writes. -/
def carriedOut (i : Injection) : Injection := { i with dryRun := false }

variable {i : Injection} {strategy : Strategy} {d : Disk} {files rest : List FileRef}
  {refusing : Bool} {p q : Progress} {s t : State} {file : FileRef}

/-! ## One file after the other -/

/-- How far a dry run on `d` and a run that writes have come, with the files `rest` still to do. -/
structure Beside (d : Disk) (rest : List FileRef) (p q : Progress) : Prop where
  disk : p.disk = d
  wf : q.disk.WellFormed
  besides : q.disk.besides = d.besides
  waiting : ∀ file ∈ rest, q.disk.look file.place = d.look file.place
  changes : p.changes = q.changes
  diagnostics : p.diagnostics = q.diagnostics

theorem Beside.visit (i : Injection) (strategy : Strategy) (wf : d.WellFormed)
    (beside : Beside d (file :: rest) p q)
    (seen : ∃ content, d.look file.place = some (.file content))
    (apart : ∀ other ∈ rest, other.place ≠ file.place) :
    Beside d rest (i.preview.visit strategy none p file).1 (i.carriedOut.visit strategy none q file).1 ∧
      (i.preview.visit strategy none p file).2 = (i.carriedOut.visit strategy none q file).2 := by
  obtain ⟨here, later⟩ := List.forall_mem_cons.mp beside.waiting
  cases stopped : i.cancelled with
  | true =>
    have dry : i.preview.visit strategy none p file = (p, .ok ()) := if_pos stopped
    have wet : i.carriedOut.visit strategy none q file = (q, .ok ()) := if_pos stopped
    rw [dry, wet]
    exact ⟨⟨beside.disk, beside.wf, beside.besides, later, beside.changes, beside.diagnostics⟩, rfl⟩
  | false =>
    obtain ⟨content, seen⟩ := seen
    have seen' := here.trans seen
    have dry : i.preview.visit strategy none p file = _ :=
      visit_eq stopped (beside.disk ▸ wf) (beside.disk ▸ seen)
    have wet : i.carriedOut.visit strategy none q file = _ := visit_eq stopped beside.wf seen'
    have read : q.disk.readFile file = d.readFile file := by
      rw [Disk.readFile_of_file beside.wf seen', Disk.readFile_of_file wf seen,
        Disk.closed_of_besides beside.besides]
    have same : i.preview.examine strategy file.path (d.readFile file) =
      i.carriedOut.examine strategy file.path (d.readFile file) := rfl
    rw [dry, wet, beside.disk, read, same]
    cases i.carriedOut.examine strategy file.path (d.readFile file) with
    | mk pending result =>
      rcases result with failure | _ | ⟨change, text⟩
      · exact ⟨⟨rfl, beside.wf, beside.besides, later, beside.changes,
          by simp [beside.diagnostics]⟩, rfl⟩
      · exact ⟨⟨rfl, beside.wf, beside.besides, later, by simp [beside.changes],
          by simp [beside.diagnostics]⟩, rfl⟩
      · obtain ⟨writtenWf, written⟩ := beside.wf.put_over (Text.encode text) seen'
        refine ⟨⟨rfl, writtenWf, beside.besides, fun other inside => ?_, by simp [beside.changes],
          by simp [beside.diagnostics]⟩, rfl⟩
        exact (written other.place).trans ((if_neg (apart other inside)).trans (later other inside))

theorem Beside.visitAll (i : Injection) (strategy : Strategy) (wf : d.WellFormed)
    (beside : Beside d rest p q)
    (seen : ∀ file ∈ rest, ∃ content, d.look file.place = some (.file content))
    (apart : (rest.map (·.place)).Nodup) :
    Beside d [] (i.preview.visitAll strategy none p rest).1
        (i.carriedOut.visitAll strategy none q rest).1 ∧
      (i.preview.visitAll strategy none p rest).2 = (i.carriedOut.visitAll strategy none q rest).2 := by
  induction rest generalizing p q with
  | nil => exact ⟨beside, rfl⟩
  | cons file rest ih =>
    obtain ⟨first, others⟩ := List.forall_mem_cons.mp seen
    obtain ⟨fresh, distinct⟩ := List.nodup_cons.mp apart
    have others' : ∀ other ∈ rest, other.place ≠ file.place :=
      fun other inside equal => fresh (List.mem_map.mpr ⟨other, inside, equal⟩)
    obtain ⟨next, same⟩ := beside.visit i strategy wf first others'
    unfold Injection.visitAll
    generalize i.preview.visit strategy none p file = dry at next same
    generalize i.carriedOut.visit strategy none q file = wet at next same
    obtain ⟨p', result⟩ := dry
    obtain ⟨q', result'⟩ := wet
    obtain rfl : result = result' := same
    cases result with
    | error failure =>
      exact ⟨⟨next.disk, next.wf, next.besides, by simp, next.changes, next.diagnostics⟩, rfl⟩
    | ok _ => exact ih next others distinct

/-- The same request as a dry run and as a run that writes. -/
theorem run_beside (keys : KeyMap) (wf : d.WellFormed) (noHook : i.hook = none) :
    (i.preview.run keys d).1 = d ∧
      (i.preview.run keys d).2 = (i.carriedOut.run keys d).2.map Summary.asPreview := by
  cases prepared : i.prepare keys d with
  | error failure =>
    have dry : i.preview.prepare keys d = .error failure := prepared
    have wet : i.carriedOut.prepare keys d = .error failure := prepared
    rw [run, run, dry, wet]
    exact ⟨rfl, rfl⟩
  | ok pair =>
    obtain ⟨strategy, scan⟩ := pair
    have lists := lists_of_prepare wf prepared
    have dry : i.preview.prepare keys d = .ok (strategy, scan) := prepared
    have wet : i.carriedOut.prepare keys d = .ok (strategy, scan) := prepared
    have quiet : i.preview.hook = none := noHook
    have quiet' : i.carriedOut.hook = none := noHook
    have start : Beside d scan.files { disk := d } { disk := d } :=
      ⟨rfl, wf, rfl, fun _ _ => rfl, rfl, rfl⟩
    obtain ⟨after, same⟩ := start.visitAll i strategy wf lists.seen lists.apart
    simp only [run, dry, wet, quiet, quiet']
    generalize i.preview.visitAll strategy none { disk := d } scan.files = left at after same
    generalize i.carriedOut.visitAll strategy none { disk := d } scan.files = right at after same
    obtain ⟨p, result⟩ := left
    obtain ⟨q, result'⟩ := right
    obtain rfl : result = result' := same
    cases result with
    | error failure => exact ⟨after.disk, rfl⟩
    | ok _ =>
      have changes : p.changes = q.changes := after.changes
      have diagnostics : p.diagnostics = q.diagnostics := after.diagnostics
      refine ⟨after.disk, ?_⟩
      simp only [Except.map, summarize, Summary.asPreview, changes, diagnostics]
      rfl

/-! ## Interleavings -/

/-- The work on a file that is being written, seen as a dry run. -/
def Task.preview : Task → Task
  | .writing change text _ _ => .reporting false [] (.ok (some (change, text)))
  | task => task

@[simp] theorem Task.change?_preview (task : Task) : task.preview.change? = task.change? := by
  cases task <;> rfl

@[simp] theorem Task.isDone_preview (task : Task) : task.preview.isDone = task.isDone := by
  cases task <;> rfl

@[simp] theorem Task.isIdle_preview (task : Task) : task.preview.isIdle = task.isIdle := by
  cases task <;> rfl

/-- A state of a run that began on `d`, seen as one of a dry run. -/
def State.preview (s : State) (d : Disk) : State :=
  { s with disk := d, task := fun file => (s.task file).preview }

theorem State.preview_turn (task : Task) :
    (s.turn file task).preview d = (s.preview d).turn file task.preview := by
  have tasks : (fun other => (Function.update s.task file task other).preview) =
      Function.update (fun other => (s.task other).preview) file task.preview := by
    funext other
    by_cases same : other = file
    · subst same
      simp
    · simp [same]
  simp [State.preview, State.turn, tasks]

/-- No worker of a dry run writes. -/
theorem not_writing {change : Change} {text : Text} {temporary : Place} {written : Nat}
    (lists : Scan.Lists d files) (member : file ∈ files)
    (reached : Reaches i.preview strategy files refusing (i.preview.initial d) s) :
    s.task file ≠ .writing change text temporary written := by
  intro now
  have fits := (sound_of_reaches lists reached).fits file member
  rw [now] at fits
  cases fits.1

/-- No step of a dry run touches the disk. -/
theorem disk_of_preview (lists : Scan.Lists d files)
    (reached : Reaches i.preview strategy files refusing (i.preview.initial d) s) : s.disk = d := by
  induction reached with
  | refl => rfl
  | tail before step ih =>
    cases step with
    | stage member now wet valid fresh => cases wet
    | fill member now grows within => exact absurd now (not_writing lists member before)
    | commit member now noHook => exact absurd now (not_writing lists member before)
    | abandon member now refused reason left => exact absurd now (not_writing lists member before)
    | _ => exact ih

/-- A run that writes, seen as a dry run. -/
theorem reaches_preview (lists : Scan.Lists d files)
    (reached : Reaches i.carriedOut strategy files false (i.carriedOut.initial d) t) :
    Reaches i.preview strategy files false (i.preview.initial d) (t.preview d) := by
  induction reached with
  | refl => exact .refl
  | @tail t t' before step ih =>
    have sound := sound_of_reaches lists before
    have seen : ∀ {file task}, t.task file = task → (t.preview d).task file = task.preview :=
      fun now => congrArg Task.preview now
    cases step with
    | interrupt => exact ih.tail (.interrupt _)
    | skip member now interrupted =>
      rw [State.preview_turn]
      exact ih.tail (.skip member (seen now) interrupted)
    | start member now going =>
      rw [State.preview_turn]
      exact ih.tail (.start member (seen now) going)
    | @read file pending result member now found =>
      rw [sound.readFile_eq lists member (by simp [now, Task.Replaces])] at found
      rw [State.preview_turn]
      exact ih.tail (.read member (seen now) found)
    | unread member now refused fault found => cases refused
    | count member now =>
      rw [State.preview_turn]
      exact ih.tail (.count member (seen now))
    | push member now =>
      rw [State.preview_turn]
      exact ih.tail (.push member (seen now))
    | fail member now =>
      rw [State.preview_turn]
      exact ih.tail (.fail member (seen now))
    | leave member now =>
      rw [State.preview_turn]
      exact ih.tail (.leave member (seen now))
    | preview member now dry => cases dry
    -- A dry run waits while the temporary file is written, and goes on when it was moved.
    | stage member now wet valid fresh =>
      rw [State.preview_turn]
      exact (State.turn_eq_self (seen now)).symm ▸ ih
    | fill member now grows within =>
      rw [State.preview_turn]
      exact (State.turn_eq_self (seen now)).symm ▸ ih
    | commit member now noHook =>
      rw [State.preview_turn]
      exact ih.tail (.preview member (seen now) rfl)
    | refuse member now wet refused reason => cases refused
    | abandon member now refused reason left => cases refused

/-- A dry run, carried out. -/
theorem reaches_carriedOut (lists : Scan.Lists d files) (noHook : i.hook = none)
    (reached : Reaches i.preview strategy files false (i.preview.initial d) s) :
    ∃ disk, Reaches i.carriedOut strategy files false (i.carriedOut.initial d) { s with disk } := by
  induction reached with
  | refl => exact ⟨d, .refl⟩
  | @tail s s' before step ih =>
    obtain ⟨disk, reached⟩ := ih
    have sound := sound_of_reaches lists reached
    have untouched := disk_of_preview lists before
    cases step with
    | interrupt => exact ⟨disk, reached.tail (.interrupt _)⟩
    | skip member now interrupted => exact ⟨disk, reached.tail (.skip member now interrupted)⟩
    | start member now going => exact ⟨disk, reached.tail (.start member now going)⟩
    | @read file pending result member now found =>
      have same := sound.readFile_eq lists member (by simp [now, Task.Replaces])
      rw [untouched, ← same] at found
      exact ⟨disk, reached.tail (.read member now found)⟩
    | unread member now refused fault found => cases refused
    | count member now => exact ⟨disk, reached.tail (.count member now)⟩
    | push member now => exact ⟨disk, reached.tail (.push member now)⟩
    | fail member now => exact ⟨disk, reached.tail (.fail member now)⟩
    | leave member now => exact ⟨disk, reached.tail (.leave member now)⟩
    | preview member now dry =>
      obtain ⟨content, seen⟩ := sound.look_file lists member
      exact ⟨_, reached.trans (reaches_written sound.wf seen member now rfl noHook)⟩
    | stage member now wet valid fresh => cases wet
    | fill member now grows within => exact absurd now (not_writing lists member before)
    | commit member now noHook => exact absurd now (not_writing lists member before)
    | refuse member now wet refused reason => cases wet
    | abandon member now refused reason left => cases refused

theorem summary_preview (disk : Disk) :
    (t.preview disk).summary i.preview files = (t.summary i.carriedOut files).asPreview := by
  simp only [State.summary, State.preview, Task.change?_preview]
  rfl

theorem returns_preview {result : Except Failure Summary} (disk : Disk)
    (returned : t.Returns i.carriedOut files result) :
    (t.preview disk).Returns i.preview files (result.map Summary.asPreview) := by
  cases returned with
  | summary done =>
    rw [Except.map, ← summary_preview disk]
    exact .summary fun file member => (Task.isDone_preview _).trans (done file member)
  | failure member failed idle =>
    exact .failure member (congrArg Task.preview failed)
      fun other inside => (Task.isIdle_preview _).trans (idle other inside)

theorem returns_carriedOut {result : Except Failure Summary} (disk : Disk)
    (returned : s.Returns i.preview files result) :
    ∃ written, ({ s with disk } : State).Returns i.carriedOut files written ∧
      result = written.map Summary.asPreview := by
  cases returned with
  | summary done => exact ⟨_, .summary done, rfl⟩
  | @failure _ failure member failed idle => exact ⟨.error failure, .failure member failed idle, rfl⟩

/-- A dry run is a faithful preview. It leaves the disk as it is, in every state that its workers can
get to. It gives the summary that the run without writing errors gives on the same disk, but for the
mark of a dry run, or the same failure; and over all interleavings the two kinds of run can give the
same results. -/
theorem run_preview (i : Injection) (keys : KeyMap) (d : Disk) (wf : d.WellFormed)
    (noHook : i.hook = none) :
    (i.preview.run keys d).1 = d ∧
    (i.preview.run keys d).2 = (i.carriedOut.run keys d).2.map Summary.asPreview ∧
    ∀ strategy scan, i.prepare keys d = .ok (strategy, scan) →
      (∀ refusing s, Reaches i.preview strategy scan.files refusing (i.preview.initial d) s →
        s.disk = d) ∧
      ∀ result,
        (∃ s, Reaches i.preview strategy scan.files false (i.preview.initial d) s ∧
          s.Returns i.preview scan.files result) ↔
        ∃ t written, Reaches i.carriedOut strategy scan.files false (i.carriedOut.initial d) t ∧
          t.Returns i.carriedOut scan.files written ∧
          result = written.map Summary.asPreview := by
  obtain ⟨untouched, same⟩ := run_beside keys wf noHook
  refine ⟨untouched, same, fun strategy scan prepared => ?_⟩
  have lists := lists_of_prepare wf prepared
  refine ⟨fun refusing s => disk_of_preview lists, fun result => ⟨?_, ?_⟩⟩
  · rintro ⟨s, reached, returned⟩
    obtain ⟨disk, reached'⟩ := reaches_carriedOut lists noHook reached
    obtain ⟨written, returned', equal⟩ := returns_carriedOut disk returned
    exact ⟨_, written, reached', returned', equal⟩
  · rintro ⟨t, written, reached, returned, rfl⟩
    exact ⟨_, reaches_preview lists reached, returns_preview d returned⟩

/-- A project with two files to change, of which the second is read after the first was written. -/
theorem run_preview_two_changes :
    let i : Injection := { root := ("/p" : Text) }
    let keys : KeyMap := KeyMap.ofTriples [("k", "en", "K")]
    let d : Disk :=
      { tree := .directory [(("p" : Text),
          .directory [(("a.ts" : Text), .file (Text.encode "t('k')")),
            (("b.ts" : Text), .file (Text.encode "'k';"))])] }
    ∃ summary, (i.carriedOut.run keys d).2 = .ok summary ∧
      summary.changes.map (·.path) = [("/p/a.ts" : Text), ("/p/b.ts" : Text)] ∧
      i.preview.run keys d = (d, .ok summary.asPreview) := by
  intro i keys d
  let first : FileRef := ⟨("/p/a.ts" : Text), ["p", "a.ts"]⟩
  let second : FileRef := ⟨("/p/b.ts" : Text), ["p", "b.ts"]⟩
  have wf : d.WellFormed := by decide +kernel
  have leads : d.find true i.root = .ok (["p"], _) := Disk.find_of_placeOf (by decide +kernel)
  have prepared : i.carriedOut.prepare keys d = .ok (.gloss keys, { files := [first, second] }) :=
    prepare_gloss rfl (Disk.walk_of_directory leads) (by decide +kernel) (by decide +kernel)
  have seen : d.look first.place = some (.file (Text.encode "t('k')")) := rfl
  have seen' : d.look second.place = some (.file (Text.encode "'k';")) := rfl
  obtain ⟨change, text, path, worked⟩ := examine_gloss (n := 0) i.carriedOut first.path
    (by decide +kernel) (by decide +kernel : Gloss.EndsAfter keys "t('k')" 1)
  obtain ⟨change', text', path', worked'⟩ := examine_gloss (n := 0) i.carriedOut second.path
    (by decide +kernel) (by decide +kernel : Gloss.EndsAfter keys "'k';" 1)
  -- The disk once the first file was written.
  obtain ⟨wf', looks⟩ := wf.put_over (Text.encode text) seen
  have still : (d.put first.place (.file (Text.encode text))).look second.place =
      some (.file (Text.encode "'k';")) := by
    rw [looks, if_neg (by decide), seen']
  have read : d.readFile first = .ok ("t('k')" : Text) :=
    Disk.readFile_of_text wf seen (by decide +kernel) List.not_mem_nil
  have read' : (d.put first.place (.file (Text.encode text))).readFile second =
      .ok ("'k';" : Text) :=
    Disk.readFile_of_text wf' still (by decide +kernel) List.not_mem_nil
  let halfway : Progress :=
    { disk := d.put first.place (.file (Text.encode text)), changes := [change] }
  have visited : i.carriedOut.visit (.gloss keys) none { disk := d } first = (halfway, .ok ()) := by
    rw [visit_eq rfl wf seen, read, worked]
    rfl
  have visited' : i.carriedOut.visit (.gloss keys) none halfway second =
      ({ disk := i.carriedOut.diskAfter halfway.disk second (some (change', text')),
         changes := [change, change'] }, .ok ()) := by
    rw [visit_eq rfl wf' still, read', worked']
    rfl
  have wet : (i.carriedOut.run keys d).2 = .ok (i.carriedOut.summarize 2
      { disk := i.carriedOut.diskAfter halfway.disk second (some (change', text'))
        changes := [change, change'] }) := by
    have quiet : i.carriedOut.hook = none := rfl
    simp only [run, prepared, quiet, visitAll, visited, visited']
    rfl
  have sorted : [change, change'].mergeSort (fun a b => a.path.le b.path) = [change, change'] := by
    refine List.mergeSort_of_pairwise (List.pairwise_pair.mpr ?_)
    rw [path, path']
    decide +kernel
  obtain ⟨untouched, same, -⟩ := run_preview i keys d wf rfl
  refine ⟨_, wet, ?_, Prod.ext untouched ?_⟩
  · simp only [summarize, sorted, List.map_cons, List.map_nil, path, path']
    rfl
  · rw [same, wet]
    rfl

end Injection

end KeyGloss
