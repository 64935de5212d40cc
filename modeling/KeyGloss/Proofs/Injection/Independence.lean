import KeyGloss.Proofs.Injection.Reported
import KeyGloss.Proofs.Injection.Whole
import KeyGloss.Proofs.RoundTrip

/-!
# Runs do not depend on their schedule

What a run comes to is put together from what its files come to, each by its own path and what reading it
gives alone (`bytesAfter`, `changeOf`, `reportsOf`). The order in which the workers take their steps leaves
no trace, neither on the disk nor in the summary, as long as no two files are listed under one path:
diagnostics are sorted by path, line and rule, so what agrees in all three has to come from one worker. It
is not enough that the paths differ that are shown for the files (`reaches_depends_on_schedule`).
-/

namespace KeyGloss

theorem Diagnostic.filePath_relativize (root : Path) (diagnostic : Diagnostic) :
    (diagnostic.relativize root).filePath =
      (relativePath? root diagnostic.filePath).getD diagnostic.filePath := by
  unfold relativize
  cases relativePath? root diagnostic.filePath with
  | none => rfl
  | some relative => cases diagnostic <;> rfl

/-- A strategy reports on the source that it is applied to. -/
theorem Strategy.filePath_of_apply {strategy : Strategy} {source : Source} {diagnostic : Diagnostic}
    (reported : diagnostic ∈ (strategy.apply source).2.1) : diagnostic.filePath = source.path := by
  cases strategy with
  | gloss keys => cases reported
  | reference r =>
    have listed : (r.apply source).2.1 = (r.refused source.tokens).map (r.reportOf source) := by
      simp only [Referencing.apply, Referencing.scan_eq]
      split
      · rfl
      · split
        · rfl
        · split <;> rfl
    rw [Strategy.apply, listed] at reported
    obtain ⟨hit, -, rfl⟩ := List.mem_map.mp reported
    rfl

namespace Injection

/-- The path by which the diagnostics of a file are listed, by what reading the file gives. What could not
be read is named by the path that is shown for it, which is then looked at once more. -/
def listedPath (i : Injection) (path : Path) (content : Except DiskFault Text) : Text :=
  let named := if (Source.of? path content).isSome then path else i.displayPath path
  (Diagnostic.relativePath? i.root named).getD named

/-- No two files are listed under one path. -/
def ListsApart (i : Injection) (d : Disk) (files : List FileRef) : Prop :=
  ∀ file ∈ files, ∀ other ∈ files, i.listedPath file.path (d.readFile file) =
    i.listedPath other.path (d.readFile other) → file = other

/-- The diagnostics of a file, by its path and what reading it gives. -/
def reportsOf (i : Injection) (strategy : Strategy) (path : Path) (content : Except DiskFault Text) :
    List Diagnostic :=
  (i.examine strategy path content).1

/-- The change of a file, by its path and what reading it gives. -/
def changeOf (i : Injection) (strategy : Strategy) (path : Path) (content : Except DiskFault Text) :
    Option Change :=
  match (i.examine strategy path content).2 with
  | .ok work => work.map (·.1)
  | .error _ => none

/-- The bytes of a file after a run, by its path, what reading it gives and its bytes before. -/
def bytesAfter (i : Injection) (strategy : Strategy) (path : Path) (content : Except DiskFault Text)
    (bytes : ByteArray) : ByteArray :=
  match (i.examine strategy path content).2 with
  | .ok (some (_, text)) => if i.dryRun then bytes else Text.encode text
  | _ => bytes

/-- What the files come to, one after the other. -/
def collected (i : Injection) (strategy : Strategy) (d : Disk) (files : List FileRef) : Progress where
  disk := d
  changes := files.filterMap fun file => i.changeOf strategy file.path (d.readFile file)
  diagnostics := files.flatMap fun file => i.reportsOf strategy file.path (d.readFile file)

variable {i : Injection} {strategy : Strategy} {d : Disk} {files : List FileRef} {s : State}
  {file : FileRef} {path : Path} {content : Except DiskFault Text}

/-- A file below the root is listed under the path that is shown for it, unless that path lies below the
root itself. -/
theorem listedPath_eq_displayPath (below : Path.startsWith path i.root = true)
    (once : Path.startsWith (i.displayPath path) i.root = false) :
    i.listedPath path content = i.displayPath path := by
  unfold listedPath
  cases (Source.of? path content).isSome with
  | true =>
    simp only [if_true, displayPath, Diagnostic.relativePath?, Path.below?, below, Option.map_some,
      Option.getD_some]
  | false =>
    simp only [Bool.false_eq_true, if_false, Diagnostic.relativePath?, Path.below?, once,
      Option.map_none, Option.getD_none]

/-- Files are listed under different paths if different paths are shown for them, none of which lies below
the root itself. -/
theorem listsApart_of_displayPath (below : ∀ file ∈ files, file.path.startsWith i.root = true)
    (once : ∀ file ∈ files, Path.startsWith (i.displayPath file.path) i.root = false)
    (distinct : ∀ file ∈ files, ∀ other ∈ files,
      i.displayPath file.path = i.displayPath other.path → file = other) : ListsApart i d files := by
  intro file member other inside same
  rw [listedPath_eq_displayPath (below file member) (once file member),
    listedPath_eq_displayPath (below other inside) (once other inside)] at same
  exact distinct file member other inside same

theorem filePath_of_reportsOf {diagnostic : Diagnostic}
    (found : diagnostic ∈ i.reportsOf strategy path content) :
    diagnostic.filePath = i.listedPath path content := by
  unfold reportsOf at found
  unfold listedPath
  cases readable : Source.of? path content with
  | none =>
    obtain ⟨reason, equal⟩ := examine_of_unreadable i strategy readable
    rw [equal, List.mem_singleton] at found
    rw [found, Diagnostic.filePath_relativize]
    rfl
  | some source =>
    rw [examine_of_source readable] at found
    obtain ⟨before, reported, rfl⟩ := List.mem_map.mp found
    obtain ⟨text, -, read⟩ := Source.of?_eq_some.mp readable
    obtain ⟨-, -, named, -⟩ := Source.lexes_of_read read
    rw [Diagnostic.filePath_relativize, Strategy.filePath_of_apply reported, named]
    rfl

/-- A file that cannot be read as a source is reported once and stays as it is. -/
theorem apart_of_unreadable (bytes : ByteArray) (unreadable : Source.of? path content = none) :
    (i.reportsOf strategy path content).length = 1 ∧ i.changeOf strategy path content = none ∧
      i.bytesAfter strategy path content bytes = bytes := by
  obtain ⟨reason, equal⟩ := examine_of_unreadable i strategy unreadable
  simp [reportsOf, changeOf, bytesAfter, equal]

theorem ListsApart.reports (apart : ListsApart i d files) : ReportsApart i strategy d files := by
  intro file member other inside first found second found' same
  refine apart file member other inside ?_
  rw [← filePath_of_reportsOf found, ← filePath_of_reportsOf found', same]

/-- What is selected comes from one element only. -/
theorem filter_flatMap_of_one {α β : Type} {l : List α} {g : α → List β} {p : β → Bool} {a : α}
    (nodup : l.Nodup) (member : a ∈ l) (others : ∀ b ∈ l, b ≠ a → (g b).filter p = []) :
    (l.flatMap g).filter p = (g a).filter p := by
  induction l with
  | nil => cases member
  | cons b l ih =>
    obtain ⟨fresh, rest⟩ := List.nodup_cons.mp nodup
    rw [List.flatMap_cons, List.filter_append]
    by_cases here : b = a
    · subst here
      have nothing : (l.flatMap g).filter p = [] := by
        rw [List.filter_flatMap, List.flatMap_eq_nil_iff]
        intro c inside
        exact others c (List.mem_cons_of_mem _ inside) (by rintro rfl; exact fresh inside)
      rw [nothing, List.append_nil]
    · have inside : a ∈ l := (List.mem_cons.mp member).resolve_left (Ne.symm here)
      have later := ih rest inside fun c listed => others c (List.mem_cons_of_mem _ listed)
      rw [others b List.mem_cons_self here, List.nil_append, later]

/-- A state in which all files are done and none was left out. -/
structure Complete (i : Injection) (strategy : Strategy) (d : Disk) (files : List FileRef)
    (s : State) : Prop where
  lists : Scan.Lists d files
  apart : ReportsApart i strategy d files
  sound : Sound i strategy d files false s
  reported : Reported i strategy d files s
  going : s.cancelled = false
  done : ∀ file ∈ files, (s.task file).isDone = true

namespace Complete

variable (complete : Complete i strategy d files s)

include complete

theorem not_cancelled : i.cancelled = false := by
  by_contra interrupted
  have stopped := complete.reported.cancelled (by simpa using interrupted)
  simp [complete.going] at stopped

theorem task_eq (member : file ∈ files) :
    ∃ work : Work, (i.findings strategy d file).2 = .ok work ∧
      s.task file = .finished (work.map (·.1)) := by
  have fits := complete.sound.fits file member
  rw [complete.sound.content_of_never rfl] at fits
  rcases Task.isDone_iff.mp (complete.done file member) with now | ⟨change, now⟩
  · have interrupted := complete.reported.skipped file member now
    simp [complete.going] at interrupted
  · rw [now] at fits
    obtain ⟨work, result, rfl⟩ := fits
    exact ⟨work, result, now⟩

theorem change?_eq_changeOf (member : file ∈ files) :
    (s.task file).change? = i.changeOf strategy file.path (d.readFile file) := by
  obtain ⟨work, result, now⟩ := complete.task_eq member
  rw [findings] at result
  rw [now, changeOf, result]
  rfl

/-- What stands at the place of a file in the end. -/
theorem look_file {bytes : ByteArray} (member : file ∈ files)
    (seen : d.look file.place = some (.file bytes)) : s.disk.look file.place =
      some (.file (i.bytesAfter strategy file.path (d.readFile file) bytes)) := by
  obtain ⟨work, result, now⟩ := complete.task_eq member
  have examined : (i.examine strategy file.path (d.readFile file)).2 = .ok work := result
  unfold bytesAfter
  rw [examined]
  by_cases replaces : (s.task file).Replaces i
  · obtain ⟨change, text, found, after⟩ := complete.sound.replaced file member replaces
    rw [complete.sound.content_of_never rfl] at found
    obtain rfl := Except.ok.inj (examined.symm.trans found)
    rw [after]
    simp [replaces.1]
  · have kept : s.disk.look file.place = d.look file.place := by
      refine complete.sound.kept file.place (by simp [seen]) fun other inside same => ?_
      rwa [complete.lists.eq_of_place inside member same]
    rw [kept, seen]
    rcases work with _ | ⟨change, text⟩
    · rfl
    · have dry : i.dryRun = true := by
        by_contra wet
        exact replaces ⟨by simpa using wet, change, now⟩
      simp [dry]

/-- All that is no file of the run stands as it stood, and no temporary file is left. -/
theorem look_elsewhere {place : Place} (other : ∀ file ∈ files, file.place ≠ place) :
    s.disk.look place = d.look place := by
  by_cases taken : d.look place = none
  · rw [taken]
    by_contra new
    obtain ⟨file, member, now⟩ := complete.sound.new rfl place taken new
    obtain ⟨work, -, finished⟩ := complete.task_eq member
    rw [finished] at now
    cases now
  · exact complete.sound.kept place taken fun file member same => absurd same (other file member)

/-- The shared list agrees with the lists of the files, path by path. -/
theorem filter_diagnostics (shown : Text) :
    s.diagnostics.filter (·.filePath = shown) =
      (i.collected strategy d files).diagnostics.filter (·.filePath = shown) := by
  have collected : (i.collected strategy d files).diagnostics =
      files.flatMap fun file => (i.findings strategy d file).1 := rfl
  rw [collected]
  by_cases found : ∃ file ∈ files, ∃ diagnostic ∈ (i.findings strategy d file).1,
      diagnostic.filePath = shown
  · obtain ⟨file, member, diagnostic, mine, rfl⟩ := found
    obtain ⟨work, -, now⟩ := complete.task_eq member
    have order := complete.reported.order file member diagnostic mine
    rw [now, Task.listed] at order
    rw [order, filter_flatMap_of_one complete.lists.nodup member]
    intro other inside different
    rw [List.filter_eq_nil_iff]
    intro second theirs same
    have same : second.filePath = diagnostic.filePath := by simpa using same
    exact different (complete.apart other inside file member second theirs diagnostic mine same)
  · have absent : ∀ file ∈ files, ∀ diagnostic ∈ (i.findings strategy d file).1,
        ¬ decide (diagnostic.filePath = shown) = true := by
      intro file member diagnostic mine same
      exact found ⟨file, member, diagnostic, mine, of_decide_eq_true same⟩
    rw [List.filter_eq_nil_iff.mpr, List.filter_eq_nil_iff.mpr]
    · intro diagnostic listed
      obtain ⟨file, member, mine⟩ := List.mem_flatMap.mp listed
      exact absent file member diagnostic mine
    · intro diagnostic listed
      obtain ⟨file, member, mine⟩ := complete.reported.listed diagnostic listed
      exact absent file member diagnostic mine

theorem sorted_diagnostics :
    Diagnostic.sorted s.diagnostics =
      Diagnostic.sorted (i.collected strategy d files).diagnostics :=
  Diagnostic.sorted_eq_of_files complete.filter_diagnostics

theorem warnings_eq : s.warnings = (i.collected strategy d files).diagnostics.length := by
  have counted : (files.countP fun file => (s.task file).hasCounted) = 0 := by
    rw [List.countP_eq_zero]
    intro file member
    obtain ⟨work, -, now⟩ := complete.task_eq member
    simp [now, Task.hasCounted]
  have length := congrArg List.length complete.sorted_diagnostics
  simp only [Diagnostic.sorted, List.length_mergeSort] at length
  have warnings := complete.reported.warnings
  omega

/-- The summary is that of the files one after the other. -/
theorem summary_eq : s.summary i files = i.summarize files.length (i.collected strategy d files) := by
  have changes : (files.filterMap fun file => (s.task file).change?) =
      (i.collected strategy d files).changes :=
    List.filterMap_congr fun file member => complete.change?_eq_changeOf member
  unfold State.summary summarize
  rw [changes, complete.sorted_diagnostics, complete.warnings_eq, complete.going,
    complete.not_cancelled]

/-- The disk is told by what each file comes to. -/
theorem disk_eq {s' : State} (complete' : Complete i strategy d files s') : s.disk = s'.disk := by
  refine complete.sound.wf.ext complete'.sound.wf (fun place => ?_)
    (complete.sound.besides.trans complete'.sound.besides.symm)
  by_cases listed : ∃ file ∈ files, file.place = place
  · obtain ⟨file, member, rfl⟩ := listed
    obtain ⟨bytes, seen⟩ := complete.lists.seen file member
    rw [complete.look_file member seen, complete'.look_file member seen]
  · have other : ∀ file ∈ files, file.place ≠ place := fun file member same =>
      listed ⟨file, member, same⟩
    rw [complete.look_elsewhere other, complete'.look_elsewhere other]

end Complete

theorem complete_of_reaches (lists : Scan.Lists d files) (apart : ListsApart i d files)
    (reached : Reaches i strategy files false (i.initial d) s) (going : s.cancelled = false)
    (done : ∀ file ∈ files, (s.task file).isDone = true) : Complete i strategy d files s :=
  ⟨lists, apart.reports, sound_of_reaches lists reached,
    reported_of_reaches lists apart.reports reached, going, done⟩

theorem cancelled_of_run {keys : KeyMap} {summary : Summary}
    (finished : (i.run keys d).2 = .ok summary) : summary.cancelled = i.cancelled := by
  unfold run at finished
  split at finished
  · cases finished
  · split at finished
    · obtain rfl := Except.ok.inj finished
      rfl
    · cases finished

/-- Any interleaving in which no file is left out or fails ends as the work on one file after the
other does. -/
theorem Complete.run_eq {keys : KeyMap} {scan : Scan} (complete : Complete i strategy d scan.files s)
    (apart : ListsApart i d scan.files) (prepared : i.prepare keys d = .ok (strategy, scan))
    (noHook : i.hook = none) : i.run keys d = (s.disk, .ok (s.summary i scan.files)) := by
  obtain ⟨s', reached, disk, returned⟩ := run_reaches complete.lists.wf prepared noHook
  generalize result : (i.run keys d).2 = outcome at returned
  cases returned with
  | summary done =>
    have going : s'.cancelled = false := (cancelled_of_run result).trans complete.not_cancelled
    have complete' := complete_of_reaches complete.lists apart reached going done
    rw [complete.summary_eq, ← complete'.summary_eq, complete.disk_eq complete', disk, ← result]
  | @failure file failure member failed idle =>
    have sound := sound_of_reaches complete.lists reached
    have fits := sound.fits file member
    obtain ⟨work, worked, -⟩ := complete.task_eq member
    rw [failed, sound.content_of_never rfl] at fits
    rcases fits with broken | ⟨refused, -⟩
    · cases worked.symm.trans broken
    · cases refused

/-- A run does not depend on its schedule. Whatever the order in which the workers take their steps, if
no file is left out and none fails, then the disk and the whole summary are those of the work on one
file after the other. Each file's bytes, its change and its diagnostics are told by its own path and by
what reading it gives, which its path, its bytes and its being closed decide; so a file that cannot be
read or cut into tokens adds one diagnostic and touches no other file. The numbers of the summary are
those of its lists. -/
theorem reaches_independent (i : Injection) (keys : KeyMap) (d : Disk) (strategy : Strategy)
    (scan : Scan) (s : State) (summary : Summary) (wf : d.WellFormed)
    (prepared : i.prepare keys d = .ok (strategy, scan)) (noHook : i.hook = none)
    (apart : ListsApart i d scan.files)
    (reached : Reaches i strategy scan.files false (i.initial d) s) (going : s.cancelled = false)
    (returned : s.Returns i scan.files (.ok summary)) :
    i.run keys d = (s.disk, .ok summary) ∧
    (∀ file ∈ scan.files, ∃ bytes, d.look file.place = some (.file bytes) ∧
      d.readFile file = (if !Disk.takes file.path then .error .tooLong
        else if file.place ∈ d.closed then .error .denied else Disk.textOf bytes) ∧
      s.disk.look file.place =
        some (.file (i.bytesAfter strategy file.path (d.readFile file) bytes))) ∧
    (∀ place, (∀ file ∈ scan.files, file.place ≠ place) → s.disk.look place = d.look place) ∧
    summary.changes = scan.files.filterMap (fun file =>
      i.changeOf strategy file.path (d.readFile file)) ∧
    summary.diagnostics = Diagnostic.sorted (scan.files.flatMap fun file =>
      i.reportsOf strategy file.path (d.readFile file)) ∧
    (∀ path content bytes, Source.of? path content = none →
      (i.reportsOf strategy path content).length = 1 ∧ i.changeOf strategy path content = none ∧
        i.bytesAfter strategy path content bytes = bytes) ∧
    summary.filesScanned = scan.files.length ∧ summary.filesChanged = summary.changes.length ∧
    summary.replacements = (summary.changes.map (·.replacements)).foldr (· + ·) 0 ∧
    summary.warnings = summary.diagnostics.length := by
  have lists := lists_of_prepare wf prepared
  cases returned with
  | summary done =>
    have complete := complete_of_reaches lists apart reached going done
    have changes : (s.summary i scan.files).changes = (i.collected strategy d scan.files).changes :=
      (complete.sound.sorted_changes lists done).trans
        (List.filterMap_congr fun file member => complete.change?_eq_changeOf member)
    refine ⟨complete.run_eq apart prepared noHook, fun file member => ?_,
      fun place other => complete.look_elsewhere other, changes, complete.sorted_diagnostics,
      fun path content bytes unreadable => apart_of_unreadable bytes unreadable, rfl, ?_⟩
    · obtain ⟨bytes, seen⟩ := lists.seen file member
      exact ⟨bytes, seen, Disk.readFile_of_file wf seen, complete.look_file member seen⟩
    · rw [changes, complete.summary_eq]
      exact ⟨rfl, rfl, (List.length_mergeSort _).symm⟩

/-- One worker reads a file that is no text, another then does all its work, and only after that the
first reports what it found. -/
theorem reaches_independent_late_report :
    let i : Injection := { root := ("/p" : Text) }
    let keys : KeyMap := KeyMap.ofTriples [("k", "en", "K")]
    let d : Disk :=
      { tree := .directory [(("p" : Text),
          .directory [(("a.ts" : Text), .file (Text.encode "t('k')")),
            (("b.ts" : Text), .file ⟨#[255]⟩)])] }
    let first : FileRef := ⟨("/p/a.ts" : Text), ["p", "a.ts"]⟩
    let second : FileRef := ⟨("/p/b.ts" : Text), ["p", "b.ts"]⟩
    ∃ s summary, i.prepare keys d = .ok (.gloss keys, { files := [first, second] }) ∧
      Reaches i (.gloss keys) [first, second] false (i.initial d) s ∧ s.cancelled = false ∧
      s.Returns i [first, second] (.ok summary) ∧ i.run keys d = (s.disk, .ok summary) ∧
      summary.filesChanged = 1 ∧ summary.warnings = 1 := by
  intro i keys d first second
  have wf : d.WellFormed := by decide +kernel
  have leads : d.find true i.root = .ok (["p"], _) := Disk.find_of_placeOf (by decide +kernel)
  have prepared : i.prepare keys d = .ok (.gloss keys, { files := [first, second] }) :=
    prepare_gloss rfl (Disk.walk_of_directory leads) (by decide +kernel) (by decide +kernel)
  have seen : d.look first.place = some (.file (Text.encode "t('k')")) := rfl
  have seen' : d.look second.place = some (.file ⟨#[255]⟩) := rfl
  have member : first ∈ [first, second] := List.mem_cons_self
  have member' : second ∈ [first, second] := List.mem_cons_of_mem _ (List.mem_singleton_self _)
  -- What the two workers find.
  obtain ⟨change, text, -, worked⟩ := examine_gloss (n := 0) i first.path
    (by decide +kernel) (by decide +kernel : Gloss.EndsAfter keys "t('k')" 1)
  have found : i.examine (.gloss keys) first.path (d.readFile first) =
      ([], .ok (some (change, text))) := by
    rw [Disk.readFile_of_text wf seen (by decide +kernel) List.not_mem_nil, worked]
  have unreadable : Source.of? second.path (d.readFile second) = none := by
    rw [Disk.readFile_of_file wf seen']
    decide +kernel
  obtain ⟨reason, found'⟩ := examine_of_unreadable i (.gloss keys) unreadable
  generalize (Diagnostic.unreadable _ reason).relativize i.root = report at found'
  have different : first ≠ second := by decide
  -- `second` is read, then all is done for `first`, and then `second` is reported.
  have read : Reaches i (.gloss keys) [first, second] false (i.initial d)
      ((i.initial d).turn second (.reporting false [report] (.ok none))) := by
    refine .head (.start member' rfl rfl) (.head (.read member' State.turn_task_self found') ?_)
    rw [State.turn_turn]
  have finished := read.trans (reaches_finished wf seen member (State.turn_task_of_ne different) rfl
    found rfl)
  have reported := finished.trans (reaches_reported member' (State.turn_task_of_ne different.symm))
  have reached := reported.tail (.leave member' State.turn_task_self)
  rw [State.turn_turn] at reached
  generalize final : State.turn _ second (.finished none) = s at reached
  have task : s.task first = .finished (some change) := by
    rw [← final, State.turn_task_of_ne different]
    simp
  have task' : s.task second = .finished none := by rw [← final, State.turn_task_self]
  have going : s.cancelled = false := by rw [← final]; rfl
  have returned : s.Returns i [first, second] (.ok (s.summary i [first, second])) := by
    refine .summary ?_
    rw [List.forall_mem_cons, List.forall_mem_singleton, task, task']
    exact ⟨rfl, rfl⟩
  have apart : ListsApart i d [first, second] :=
    listsApart_of_displayPath (by decide +kernel) (by decide +kernel) (by decide +kernel)
  have run := reaches_independent i keys d _ _ s _ wf prepared rfl apart reached going returned
  refine ⟨s, _, prepared, reached, going, returned, run.1, ?_, ?_⟩
  · simp [State.summary, summarize, task, task', Task.change?]
  · rw [← final]
    rfl

/-- A worker reports its file and leaves it alone while the others wait. -/
theorem reaches_left {pending : List Diagnostic} (member : file ∈ files)
    (now : s.task file = .waiting) (going : s.cancelled = false)
    (found : i.examine strategy file.path (s.disk.readFile file) = (pending, .ok none)) :
    Reaches i strategy files false s
      ({ s with
          warnings := s.warnings + pending.length
          diagnostics := s.diagnostics ++ pending }.turn file (.finished none)) := by
  have examined : Reaches i strategy files false s _ := reaches_examined member now going found
  have reached := examined.tail (.leave member State.turn_task_self)
  rwa [State.turn_turn] at reached

/-- Two workers that report their files, one wholly before the other, in a run that has no other files. -/
theorem reaches_reports {first second : FileRef} {report report' : Diagnostic}
    (covered : ∀ file ∈ files, file = first ∨ file = second) (member : first ∈ files)
    (member' : second ∈ files) (different : second ≠ first) (going : i.cancelled = false)
    (found : i.examine strategy first.path (d.readFile first) = ([report], .ok none))
    (found' : i.examine strategy second.path (d.readFile second) = ([report'], .ok none))
    (sorted : Diagnostic.le report report' = true) :
    ∃ s summary, Reaches i strategy files false (i.initial d) s ∧ s.cancelled = false ∧
      s.Returns i files (.ok summary) ∧ summary.diagnostics = [report, report'] := by
  have early : Reaches i strategy files false (i.initial d) _ := reaches_left member rfl going found
  have late := early.trans (reaches_left member' (State.turn_task_of_ne different) going found')
  refine ⟨_, _, late, going, .summary fun file listed => ?_, ?_⟩
  · rcases covered file listed with rfl | rfl
    · rw [State.turn_task_of_ne different.symm]
      simp [Task.isDone]
    · simp [Task.isDone]
  · exact List.mergeSort_of_pairwise (List.pairwise_pair.mpr sorted)

/-- Different paths may be shown for two files while both are listed under one. Then the diagnostics of
the summary stand in the order in which the workers reported them. -/
theorem reaches_depends_on_schedule :
    let i : Injection := { root := ("/p" : Text) }
    let keys : KeyMap := KeyMap.ofTriples [("k", "en", "K")]
    let d : Disk :=
      { tree := .directory [(("p" : Text),
          .directory [(("\\p\\x.ts" : Text), .file ⟨#[255]⟩), (("x.ts" : Text), .file ⟨#[255]⟩)])] }
    let first : FileRef := ⟨("/p/\\p\\x.ts" : Text), ["p", "\\p\\x.ts"]⟩
    let second : FileRef := ⟨("/p/x.ts" : Text), ["p", "x.ts"]⟩
    let strategy : Strategy := .gloss keys
    d.WellFormed ∧ i.prepare keys d = .ok (strategy, { files := [first, second] }) ∧ i.hook = none ∧
      i.displayPath first.path ≠ i.displayPath second.path ∧
      ∃ s summary s' summary', Reaches i strategy [first, second] false (i.initial d) s ∧
        s.cancelled = false ∧ s.Returns i [first, second] (.ok summary) ∧
        Reaches i strategy [first, second] false (i.initial d) s' ∧ s'.cancelled = false ∧
        s'.Returns i [first, second] (.ok summary') ∧
        summary.diagnostics ≠ summary'.diagnostics := by
  intro i keys d first second strategy
  have member : first ∈ [first, second] := List.mem_cons_self
  have member' : second ∈ [first, second] := List.mem_cons_of_mem _ (List.mem_singleton_self _)
  have different : first ≠ second := by decide
  have wf : d.WellFormed := by decide +kernel
  have leads : d.find true i.root = .ok (["p"], _) := Disk.find_of_placeOf (by decide +kernel)
  have prepared : i.prepare keys d = .ok (strategy, { files := [first, second] }) :=
    prepare_gloss rfl (Disk.walk_of_directory leads) (by decide +kernel) (by decide +kernel)
  have read : d.readFile first = .error .notText :=
    (Disk.readFile_of_file wf rfl).trans (by decide +kernel)
  have read' : d.readFile second = .error .notText :=
    (Disk.readFile_of_file wf rfl).trans (by decide +kernel)
  let reportOf (path : Path) : Diagnostic :=
    (Diagnostic.unreadable (i.displayPath path)
      (Failure.read path DiskFault.notText.message).message).relativize i.root
  have found : i.examine strategy first.path (d.readFile first) =
      ([reportOf first.path], .ok none) := by
    rw [read]
    rfl
  have found' : i.examine strategy second.path (d.readFile second) =
      ([reportOf second.path], .ok none) := by
    rw [read']
    rfl
  obtain ⟨s, summary, reached, going, returned, listed⟩ := reaches_reports (i := i) (by simp)
    member member' different.symm rfl found found' (by decide +kernel)
  obtain ⟨s', summary', reached', going', returned', listed'⟩ := reaches_reports (i := i)
    (by simp [or_comm]) member' member different rfl found' found (by decide +kernel)
  refine ⟨wf, prepared, rfl, by decide +kernel, s, summary, s', summary', reached, going,
    returned, reached', going', returned', ?_⟩
  rw [listed, listed']
  decide +kernel

end Injection

end KeyGloss
