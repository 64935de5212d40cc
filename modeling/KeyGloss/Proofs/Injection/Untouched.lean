import KeyGloss.Proofs.ImportSpecifier
import KeyGloss.Proofs.Injection.Preview

/-!
# What a failed run leaves

A run that fails before it looks at a file leaves the disk as it is. Once files are worked on, the only
failure besides a refused write is an import without a specifier, which takes a file that is stranded
(`strands_of_examine`). Such a failure comes too late when another worker has replaced its file before
(`reaches_late_failure`); the main theorem says exactly when this can happen.
-/

namespace KeyGloss

/-- Whether a file could not be written. -/
def Failure.isWrite : Failure → Bool
  | .write _ _ => true
  | _ => false

/-- The failure of a strategy is that of the import. -/
theorem Strategy.apply_eq_error {strategy : Strategy} {source : Source} {failure : Failure}
    (failed : (strategy.apply source).2.2 = .error failure) :
    ∃ r, strategy = .reference r ∧
      ImportSpecifier.between source.path r.modulePath = .error failure := by
  cases strategy with
  | gloss keys => cases failed
  | reference r =>
    refine ⟨r, rfl, ?_⟩
    unfold apply Referencing.apply at failed
    simp only at failed
    split at failed
    · cases failed
    · split at failed
      · cases failed
      · split at failed
        · next cause spelled =>
          rw [spelled]
          exact congrArg _ (Except.error.inj failed)
        · cases failed

namespace Injection

variable {i : Injection} {keys : KeyMap} {strategy : Strategy} {scan : Scan} {d : Disk}
  {files : List FileRef} {s : State} {file : FileRef} {failure : Failure}

/-- The work on a file fails only where no specifier leads to the module. -/
theorem examine_eq_error {path : Path} {content : Except DiskFault Text}
    (failed : (i.examine strategy path content).2 = .error failure) :
    ∃ r, strategy = .reference r ∧ ImportSpecifier.between path r.modulePath = .error failure := by
  cases readable : Source.of? path content with
  | none =>
    obtain ⟨reason, equal⟩ := examine_of_unreadable i strategy readable
    rw [equal] at failed
    cases failed
  | some source =>
    rw [examine_of_source readable] at failed
    obtain ⟨text, -, read⟩ := Source.of?_eq_some.mp readable
    cases applied : (strategy.apply source).2.2 with
    | ok outcome => simp [applied, Except.map] at failed
    | error cause =>
      obtain rfl : cause = failure := by simpa [applied, Except.map] using failed
      obtain ⟨-, -, named, -⟩ := Source.lexes_of_read read
      rw [← named]
      exact Strategy.apply_eq_error applied

/-- References are made in one mode only, and to the module that was found. -/
theorem module_of_prepare {r : Referencing} (prepared : i.prepare keys d = .ok (.reference r, scan)) :
    i.mode = .identifierReplacement ∧
      ∃ file, Scan.findModule d i.root i.identifierModule = .ok file ∧ r.modulePath = file.path := by
  obtain ⟨protectedPath, ignores, chosen, -, -⟩ := steps_of_prepare prepared
  unfold Injection.strategy at chosen
  cases mode : i.mode with
  | comment => simp [mode] at chosen
  | identifierReplacement =>
    cases found : Scan.findModule d i.root i.identifierModule with
    | error failure => simp [mode, found, Except.map] at chosen
    | ok file =>
      simp only [mode, found, Except.map, Except.ok.injEq, Prod.mk.injEq,
        Strategy.reference.injEq] at chosen
      exact ⟨rfl, file, rfl, by rw [← chosen.1]⟩

/-- The files of a run and its module lie below the root, under the names of their places. -/
theorem paths_below {module : FileRef} (wf : d.WellFormed)
    (prepared : i.prepare keys d = .ok (strategy, scan))
    (found : Scan.findModule d i.root i.identifierModule = .ok module) (member : file ∈ scan.files) :
    ∃ names names' : Place, names ≠ [] ∧ names' ≠ [] ∧ names <:+ file.place ∧
      names' <:+ module.place ∧ file.path = names.foldl Path.join i.root ∧
      module.path = names'.foldl Path.join i.root := by
  have apart := (module_not_listed wf prepared found).2 file member
  obtain ⟨ignores, rfl, -⟩ := prepare_eq_ok prepared
  obtain ⟨searched, listed, inside⟩ := Scan.mem_of_findModule found
  obtain ⟨all, listedAll, insideAll, -⟩ := Scan.mem_ofRoot.mp member
  rcases d.walk_eq i.root with ⟨base, node, start, walk⟩ | nothing
  · obtain rfl := Except.ok.inj ((walk _).symm.trans listed)
    obtain rfl := Except.ok.inj ((walk _).symm.trans listedAll)
    have below := (wf.tree.of_at? start).2
    -- A walk that starts at a file finds nothing else.
    have notFile : ∀ content, node.look [] ≠ some (.file content) := by
      intro content seen
      obtain rfl : node = .file content := by
        simpa [Node.at?] using Node.at?_eq_file.mpr seen
      rw [List.mem_singleton.mp insideAll, List.mem_singleton.mp inside] at apart
      exact apart rfl
    obtain ⟨names, content, rfl, seen, -⟩ := below.mem_files_iff.mp insideAll
    obtain ⟨names', content', rfl, seen', -⟩ := below.mem_files_iff.mp inside
    refine ⟨names, names', ?_, ?_, ⟨base, rfl⟩, ⟨base, rfl⟩, rfl, rfl⟩
    · rintro rfl
      exact notFile content seen
    · rintro rfl
      exact notFile content' seen'
  · obtain rfl := nothing _ _ listed
    cases inside

/-- The work on a file ends the run, since no import leads from the file to the module. -/
def Strands (i : Injection) (d : Disk) (file : FileRef) (failure : Failure) : Prop :=
  i.mode = .identifierReplacement ∧ ∃ module,
    Scan.findModule d i.root i.identifierModule = .ok module ∧
      failure = .importPath file.path module.path ∧
      ImportSpecifier.Stranded file.path module.path

theorem strands_of_examine {content : Except DiskFault Text} (wf : d.WellFormed)
    (prepared : i.prepare keys d = .ok (strategy, scan)) (member : file ∈ scan.files)
    (failed : (i.examine strategy file.path content).2 = .error failure) :
    i.Strands d file failure := by
  obtain ⟨r, rfl, missing⟩ := examine_eq_error failed
  obtain ⟨mode, module, found, path⟩ := module_of_prepare prepared
  obtain ⟨names, names', more, more', tail, tail', spelled, spelled'⟩ :=
    paths_below wf prepared found member
  obtain ⟨content, seen⟩ := (lists_of_prepare wf prepared).seen file member
  obtain ⟨content', seen'⟩ := (module_not_listed wf prepared found).1
  rw [path, spelled, spelled'] at missing
  have stranded := (ImportSpecifier.between_below i.root more more'
    (fun name inside => wf.names_of_look seen name (tail.subset inside))
    (fun name inside => wf.names_of_look seen' name (tail'.subset inside))).mp missing
  rw [← spelled, ← spelled'] at stranded
  exact ⟨mode, module, found, stranded⟩

/-! ## One file after the other -/

/-- What can stop the work on one file, whatever command is run on changed files. -/
theorem visit_eq_error {hook : Option Hook} {p p' : Progress}
    (failed : i.visit strategy hook p file = (p', .error failure)) :
    failure.isWrite = true ∨
      ∃ content, (i.examine strategy file.path content).2 = .error failure := by
  unfold visit at failed
  split at failed
  · cases failed
  · cases found : i.examine strategy file.path (p.disk.readFile file) with
    | mk pending result =>
      simp only [found] at failed
      rcases result with cause | _ | ⟨change, text⟩
      · obtain rfl : cause = failure := Except.error.inj (Prod.mk.inj failed).2
        exact .inr ⟨_, by rw [found]⟩
      · cases failed
      · simp only at failed
        split at failed
        · cases failed
        · split at failed
          · obtain rfl := Except.error.inj (Prod.mk.inj failed).2
            exact .inl rfl
          · cases failed

theorem visitAll_eq_error {hook : Option Hook} {p p' : Progress} {rest : List FileRef}
    (failed : i.visitAll strategy hook p rest = (p', .error failure)) :
    failure.isWrite = true ∨
      ∃ file ∈ rest, ∃ content, (i.examine strategy file.path content).2 = .error failure := by
  induction rest generalizing p with
  | nil => cases failed
  | cons file rest ih =>
    unfold visitAll at failed
    split at failed
    · rcases ih failed with write | ⟨other, inside, stopped⟩
      · exact .inl write
      · exact .inr ⟨other, List.mem_cons_of_mem _ inside, stopped⟩
    · next visited =>
      obtain ⟨rfl, rfl⟩ : _ ∧ _ := by simpa using failed
      rcases visit_eq_error visited with write | stopped
      · exact .inl write
      · exact .inr ⟨file, List.mem_cons_self, stopped⟩

/-- A run that fails for another reason than a write has done nothing, or came to a stranded file. -/
theorem run_eq_error (wf : d.WellFormed) (failed : (i.run keys d).2 = .error failure)
    (notWrite : failure.isWrite = false) :
    (i.run keys d).1 = d ∨ ∃ file, i.Strands d file failure := by
  unfold run at failed ⊢
  cases prepared : i.prepare keys d with
  | error cause => exact .inl rfl
  | ok pair =>
    obtain ⟨strategy, scan⟩ := pair
    simp only [prepared] at failed
    split at failed
    · cases failed
    · next visited =>
      obtain rfl := Except.error.inj failed
      rcases visitAll_eq_error visited with write | ⟨file, inside, content, stopped⟩
      · rw [write] at notWrite
        cases notWrite
      · exact .inr ⟨file, strands_of_examine wf prepared inside stopped⟩

/-! ## Interleavings -/

/-- The work on a file ends the run. -/
def Stops (i : Injection) (strategy : Strategy) (d : Disk) (file : FileRef) : Prop :=
  ∃ failure, (i.findings strategy d file).2 = .error failure

/-- The work on a file changes what the file holds. -/
def Rewrites (i : Injection) (strategy : Strategy) (d : Disk) (file : FileRef) : Prop :=
  ∃ change text, (i.findings strategy d file).2 = .ok (some (change, text)) ∧
    d.look file.place ≠ some (.file (Text.encode text))

/-- A failure that a run gives back is one of its files', unless a write was refused. -/
theorem findings_of_returns {refusing : Bool} (lists : Scan.Lists d files)
    (reached : Reaches i strategy files refusing (i.initial d) s)
    (returned : s.Returns i files (.error failure)) (notWrite : failure.isWrite = false) :
    ∃ file ∈ files, (i.findings strategy d file).2 = .error failure := by
  cases returned with
  | @failure file _ member failed idle =>
    have fits := (sound_of_reaches lists reached).fits file member
    rw [failed] at fits
    rcases fits with found | ⟨-, reason, rfl⟩
    · rw [content_of_examine found (by simp)] at found
      exact ⟨file, member, found⟩
    · cases notWrite

/-- An interrupted run starts no file. -/
theorem not_started_of_cancelled {refusing : Bool} (interrupted : i.cancelled = true)
    (reached : Reaches i strategy files refusing (i.initial d) s) :
    s.cancelled = true ∧ ∀ file, s.task file = .waiting ∨ s.task file = .skipped := by
  induction reached with
  | refl => exact ⟨interrupted, fun _ => .inl rfl⟩
  | @tail s s' before step ih =>
    obtain ⟨stopped, tasks⟩ := ih
    -- Only a file that was started goes on.
    cases step with
    | interrupt => exact ⟨rfl, tasks⟩
    | @skip file member now _ =>
      refine ⟨stopped, fun other => ?_⟩
      by_cases same : other = file
      · subst same
        exact .inr State.turn_task_self
      · rw [State.turn_task_of_ne same]
        exact tasks other
    | start member now going => exact absurd (going.symm.trans stopped) (by simp)
    | read member now | unread member now | count member now | push member now | fail member now
    | leave member now | preview member now | stage member now | fill member now | commit member now
    | refuse member now | abandon member now =>
      rcases tasks _ with waits | skipped
      · exact absurd (now.symm.trans waits) (by simp)
      · exact absurd (now.symm.trans skipped) (by simp)

/-- One worker replaces its file, and another one fails after it. -/
theorem reaches_late_failure {refusing : Bool} {other : FileRef} {change : Change} {text : Text}
    (lists : Scan.Lists d files) (noHook : i.hook = none) (wet : i.dryRun = false)
    (going : i.cancelled = false) (member : file ∈ files) (member' : other ∈ files)
    (stops : (i.findings strategy d file).2 = .error failure)
    (rewrites : (i.findings strategy d other).2 = .ok (some (change, text))) :
    ∃ s, Reaches i strategy files refusing (i.initial d) s ∧ s.Returns i files (.error failure) ∧
      s.disk.look other.place = some (.file (Text.encode text)) := by
  have different : other ≠ file := by
    rintro rfl
    rw [rewrites] at stops
    cases stops
  obtain ⟨s, first, going, done, waiting⟩ : ∃ s, Reaches i strategy files refusing (i.initial d) s ∧
      s.cancelled = false ∧ s.task other = .finished (some change) ∧
      ∀ third, third ≠ other → s.task third = .waiting := by
    obtain ⟨content, seen⟩ := lists.seen other member'
    exact ⟨_, reaches_finished lists.wf seen member' rfl going (Prod.ext rfl rewrites) noHook, going,
      State.turn_task_self, fun third apart => State.turn_task_of_ne apart⟩
  have now := waiting file different.symm
  have found : i.examine strategy file.path (s.disk.readFile file) =
      ((i.findings strategy d file).1, .error failure) := by
    rw [(sound_of_reaches lists first).readFile_eq lists member (by simp [now, Task.Replaces])]
    exact Prod.ext rfl stops
  have whole := (first.trans (reaches_examined member now going found)).tail
    (.fail member State.turn_task_self)
  refine ⟨_, whole, .failure member State.turn_task_self fun third _ => ?_, ?_⟩
  · by_cases same : third = file
    · subst same
      rw [State.turn_task_self]
      rfl
    · rw [State.turn_task_of_ne same, State.turn_task_of_ne same]
      by_cases this : third = other
      · rw [this, done]
        rfl
      · rw [waiting third this]
        rfl
  · have replaces : Task.Replaces i (.finished (some change)) := ⟨wet, change, rfl⟩
    rw [← done, ← State.turn_task_of_ne different, ← State.turn_task_of_ne different] at replaces
    obtain ⟨_, text', result, looks⟩ := (sound_of_reaches lists whole).replaced other member' replaces
    rw [content_of_examine result (by simp)] at result
    cases rewrites.symm.trans result
    exact looks

theorem preview_eq_self (dry : i.dryRun = true) : i.preview = i := by
  rw [preview, ← dry]

/-- No file changes unless some file is rewritten. -/
theorem look_of_returns {refusing : Bool} {place : Place} {bytes : ByteArray}
    (lists : Scan.Lists d files) (reached : Reaches i strategy files refusing (i.initial d) s)
    (kept : ∀ file ∈ files, ¬ i.Rewrites strategy d file)
    (seen : d.look place = some (.file bytes)) : s.disk.look place = some (.file bytes) := by
  have sound := sound_of_reaches lists reached
  by_cases replaced : ∃ file ∈ files, file.place = place ∧ (s.task file).Replaces i
  · obtain ⟨file, member, rfl, replaces⟩ := replaced
    obtain ⟨change, text, result, looks⟩ := sound.replaced file member replaces
    rw [content_of_examine result (by simp)] at result
    have same : d.look file.place = some (.file (Text.encode text)) := by
      by_contra other
      exact kept file member ⟨change, text, result, other⟩
    rw [looks, ← same, seen]
  · rw [sound.kept place (by simp [seen]) fun file member here replaces =>
      replaced ⟨file, member, here, replaces⟩, seen]

section Layout

/-! A project with a folder that is named like the module: from the file in it no import leads to the
module, while the file beside the module can be rewritten. -/

def layoutRequest : Injection := { root := ("/p" : Text), mode := .identifierReplacement }

def layoutReferencing : Referencing :=
  { keys := KeyMap.ofTriples [("k", "en", "K")]
    importAs := ("tKeys" : Text)
    modulePath := ("/p/tKeys.ts" : Text) }

def layoutDisk : Disk :=
  { tree := .directory [(("p" : Text), .directory
      [(("a.ts" : Text), .file (Text.encode "t('k')")),
       (("tKeys" : Text), .directory [(("b.ts" : Text), .file (Text.encode "t('k')"))]),
       (("tKeys.ts" : Text), .file .empty)])] }

/-- The file beside the module. -/
def layoutBeside : FileRef := ⟨("/p/a.ts" : Text), ["p", "a.ts"]⟩

/-- The file in the folder that is named like the module. -/
def layoutBelow : FileRef := ⟨("/p/tKeys/b.ts" : Text), ["p", "tKeys", "b.ts"]⟩

/-- What becomes of the file beside the module. -/
def layoutText : Text := "import tKeys from \"./tKeys\"\nt(tKeys.k)"

theorem layoutDisk_wellFormed : layoutDisk.WellFormed := by decide +kernel

theorem prepare_layout : layoutRequest.prepare layoutReferencing.keys layoutDisk =
    .ok (.reference layoutReferencing, { files := [layoutBeside, layoutBelow] }) := by
  have leads : layoutDisk.find true layoutRequest.root = .ok (["p"], _) :=
    Disk.find_of_placeOf (by decide +kernel)
  have walked := Disk.walk_of_directory leads
  have chosen : layoutRequest.strategy layoutReferencing.keys layoutDisk =
      .ok (.reference layoutReferencing, some layoutReferencing.modulePath) := by
    have module : Scan.findModule layoutDisk layoutRequest.root layoutRequest.identifierModule =
        .ok ⟨("/p/tKeys.ts" : Text), ["p", "tKeys.ts"]⟩ :=
      Scan.findModule_of_walk (walked _) (by decide +kernel)
    rw [Injection.strategy, module]
    rfl
  exact prepare_of_walk walked chosen (by decide +kernel) (by decide +kernel)

theorem examine_layoutBeside : ∃ pending change, layoutRequest.examine (.reference layoutReferencing)
    layoutBeside.path (.ok ("t('k')" : Text)) = (pending, .ok (some (change, layoutText))) := by
  generalize found : layoutRequest.examine (.reference layoutReferencing) layoutBeside.path
    (.ok ("t('k')" : Text)) = findings
  have works : (findings.2.toOption.bind id).map Prod.snd = some layoutText := by
    rw [← found]
    decide +kernel
  obtain ⟨pending, failure | _ | ⟨change, text⟩⟩ := findings
  · cases works
  · cases works
  · exact ⟨pending, change, by rw [show text = _ from Option.some.inj works]⟩

theorem examine_layoutBelow : ∃ pending, layoutRequest.examine (.reference layoutReferencing)
    layoutBelow.path (.ok ("t('k')" : Text)) =
      (pending, .error (.importPath layoutBelow.path ("/p/tKeys.ts" : Text))) := by
  generalize found : layoutRequest.examine (.reference layoutReferencing) layoutBelow.path
    (.ok ("t('k')" : Text)) = findings
  have fails : findings.2.toOption = none := by
    rw [← found]
    decide +kernel
  obtain ⟨pending, failure | work⟩ := findings
  · obtain ⟨r, equal, missing⟩ := examine_eq_error (congrArg Prod.snd found)
    obtain rfl := Strategy.reference.inj equal
    obtain rfl : failure = .importPath layoutBelow.path ("/p/tKeys.ts" : Text) :=
      Except.error.inj (missing.symm.trans rfl)
    exact ⟨pending, rfl⟩
  · cases fails

end Layout

/-- What a failed run leaves. Unless the failure is that of a write, the run has done nothing, or it
came to a file from which no import leads to the module, whatever command is run on changed files. Over
all interleavings of its workers, no file is touched before such a failure exactly if the run is a dry
run, or was interrupted at once, or no file is rewritten beside one that stops the run. -/
theorem failure_untouched (i : Injection) (keys : KeyMap) (d : Disk)
    (wf : d.WellFormed) :
    (∀ failure, (i.run keys d).2 = .error failure → failure.isWrite = false →
      (i.run keys d).1 = d ∨ ∃ file, i.Strands d file failure) ∧
    ∀ strategy scan, i.prepare keys d = .ok (strategy, scan) → i.hook = none →
      (∀ s failure, Reaches i strategy scan.files true (i.initial d) s →
        s.Returns i scan.files (.error failure) → failure.isWrite = false →
          ∃ file ∈ scan.files, i.Strands d file failure) ∧
      ((∀ s failure, Reaches i strategy scan.files true (i.initial d) s →
        s.Returns i scan.files (.error failure) → failure.isWrite = false →
          ∀ place bytes, d.look place = some (.file bytes) →
            s.disk.look place = some (.file bytes)) ↔
        i.dryRun = true ∨ i.cancelled = true ∨
          ∀ stopping ∈ scan.files, ∀ other ∈ scan.files,
            i.Stops strategy d stopping → ¬ i.Rewrites strategy d other) := by
  refine ⟨fun failure => run_eq_error wf, fun strategy scan prepared noHook => ?_⟩
  have lists := lists_of_prepare wf prepared
  refine ⟨fun s failure reached returned notWrite => ?_, fun untouched => ?_, fun quiet => ?_⟩
  · obtain ⟨file, member, found⟩ := findings_of_returns lists reached returned notWrite
    exact ⟨file, member, strands_of_examine wf prepared member found⟩
  · by_contra loud
    obtain ⟨wet, going, together⟩ : i.dryRun = false ∧ i.cancelled = false ∧ _ := by
      simpa only [not_or, Bool.not_eq_true] using loud
    refine together fun stopping member other member' stops rewrites => ?_
    obtain ⟨failure, stops⟩ := stops
    obtain ⟨change, text, result, different⟩ := rewrites
    obtain ⟨s, reached, returned, looks⟩ :=
      reaches_late_failure lists noHook wet going member member' stops result
    obtain ⟨-, module, -, rfl, -⟩ := strands_of_examine wf prepared member stops
    obtain ⟨content, seen⟩ := lists.seen other member'
    have kept := untouched s _ reached returned rfl _ _ seen
    exact different (seen.trans (kept.symm.trans looks))
  · intro s failure reached returned notWrite place bytes seen
    rcases quiet with dry | interrupted | apart
    · rw [← preview_eq_self dry] at reached
      rw [disk_of_preview lists reached, seen]
    · cases returned with
      | @failure file _ member failed idle =>
        rcases (not_started_of_cancelled interrupted reached).2 file with now | now
        · cases now.symm.trans failed
        · cases now.symm.trans failed
    · obtain ⟨file, member, found⟩ := findings_of_returns lists reached returned notWrite
      exact look_of_returns lists reached (fun other member' => apart file member other member'
        ⟨failure, found⟩) seen

/-- No file is safe before the failure: one worker may rewrite its file before the other one fails. -/
theorem failure_untouched_layout :
    layoutDisk.WellFormed ∧
      ¬ ∀ s failure, Reaches layoutRequest (.reference layoutReferencing) [layoutBeside, layoutBelow]
          true (layoutRequest.initial layoutDisk) s →
        s.Returns layoutRequest [layoutBeside, layoutBelow] (.error failure) →
        failure.isWrite = false → ∀ place bytes, layoutDisk.look place = some (.file bytes) →
          s.disk.look place = some (.file bytes) := by
  refine ⟨layoutDisk_wellFormed, fun untouched => ?_⟩
  have wf := layoutDisk_wellFormed
  obtain ⟨pending, change, changed⟩ := examine_layoutBeside
  obtain ⟨listed, stopped⟩ := examine_layoutBelow
  have rewrites : layoutRequest.Rewrites (.reference layoutReferencing) layoutDisk layoutBeside := by
    refine ⟨change, layoutText, ?_, ?_⟩
    · rw [findings, Disk.readFile_of_text wf rfl (by decide +kernel) List.not_mem_nil, changed]
    · have seen : layoutDisk.look layoutBeside.place = some (.file (Text.encode "t('k')")) := rfl
      rw [seen, ne_eq, Option.some.injEq, Entry.file.injEq]
      decide +kernel
  have stops : layoutRequest.Stops (.reference layoutReferencing) layoutDisk layoutBelow := by
    refine ⟨.importPath layoutBelow.path ("/p/tKeys.ts" : Text), ?_⟩
    rw [findings, Disk.readFile_of_text wf rfl (by decide +kernel) List.not_mem_nil, stopped]
  have exactly := ((failure_untouched layoutRequest layoutReferencing.keys layoutDisk wf).2 _ _
    prepare_layout rfl).2.mp untouched
  rcases exactly with dry | interrupted | apart
  · cases dry
  · cases interrupted
  · exact apart layoutBelow (by simp) layoutBeside (by simp) stops rewrites

/-- A run that rewrites a file and then fails on another one, for want of an import. -/
theorem run_fails_after_rewriting :
    layoutDisk.look layoutBeside.place = some (.file (Text.encode "t('k')")) ∧
      (layoutRequest.run layoutReferencing.keys layoutDisk).2 =
        .error (.importPath layoutBelow.path ("/p/tKeys.ts" : Text)) ∧
      (layoutRequest.run layoutReferencing.keys layoutDisk).1.look layoutBeside.place =
        some (.file (Text.encode layoutText)) := by
  have seen : layoutDisk.look layoutBeside.place = some (.file (Text.encode "t('k')")) := rfl
  refine ⟨seen, ?_⟩
  obtain ⟨pending, change, changed⟩ := examine_layoutBeside
  obtain ⟨listed, stopped⟩ := examine_layoutBelow
  obtain ⟨wf', looks⟩ := layoutDisk_wellFormed.put_over (Text.encode layoutText) seen
  let halfway : Progress :=
    { disk := layoutDisk.put layoutBeside.place (.file (Text.encode layoutText))
      changes := [change], diagnostics := pending }
  have first : layoutRequest.visit (.reference layoutReferencing) none { disk := layoutDisk }
      layoutBeside = (halfway, .ok ()) := by
    rw [visit_eq rfl layoutDisk_wellFormed seen, Disk.readFile_of_text layoutDisk_wellFormed seen
      (by decide +kernel) List.not_mem_nil, changed]
    rfl
  have seen' : halfway.disk.look layoutBelow.place = some (.file (Text.encode "t('k')")) :=
    (looks layoutBelow.place).trans (if_neg (by decide))
  have second : layoutRequest.visit (.reference layoutReferencing) none halfway layoutBelow =
      ({ halfway with diagnostics := pending ++ listed },
        .error (.importPath layoutBelow.path ("/p/tKeys.ts" : Text))) := by
    rw [visit_eq rfl wf' seen', Disk.readFile_of_text wf' seen' (by decide +kernel)
      List.not_mem_nil, stopped]
  have noHook : layoutRequest.hook = none := rfl
  simp only [run, prepare_layout, noHook, visitAll, first, second, true_and]
  exact (looks _).trans (if_pos rfl)

end Injection

end KeyGloss
