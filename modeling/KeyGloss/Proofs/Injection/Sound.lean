import KeyGloss.Proofs.Injection.Schedule

/-!
# What every interleaving keeps

`Sound` ties each reachable state of a run to the disk that the run found: how far a worker has come
agrees with what it got to see of the content that its file had then (`Task.Fits`), and a place that was
taken then shows what it showed, unless it is that of a file whose work is finished. `Sound.advances` is
the step lemma and `sound_of_reaches` the run lemma.
-/

namespace KeyGloss

namespace Injection

/-- What the work on a file comes to, by what the file holds on a disk. -/
def findings (i : Injection) (strategy : Strategy) (d : Disk) (file : FileRef) :
    List Diagnostic × Except Failure Work :=
  i.examine strategy file.path (d.readFile file)

namespace Task

/-- The temporary file of a worker. -/
def temporary? : Task → Option Place
  | .writing _ _ temporary _ => some temporary
  | _ => none

theorem temporary?_eq_some {task : Task} {place : Place} :
    task.temporary? = some place ↔
      ∃ change text written, task = .writing change text place written := by
  cases task <;> simp [temporary?]

/-- Whether the file of a worker holds its new text. -/
def Replaces (i : Injection) (task : Task) : Prop :=
  i.dryRun = false ∧ ∃ change, task = .finished (some change)

/-- Whether a worker has nothing of its own on the disk. -/
def Quiet (i : Injection) (task : Task) : Prop := task.temporary? = none ∧ ¬ task.Replaces i

theorem quiet_iff {i : Injection} {task : Task} :
    task.Quiet i ↔ match task with
      | .writing .. => False
      | .finished (some _) => i.dryRun = true
      | _ => True := by
  rcases task with _ | _ | _ | _ | _ | _ | (_ | _) <;> simp [Quiet, temporary?, Replaces]

/-- Whether a worker has come to read its file. -/
def hasRead : Task → Bool
  | .waiting | .skipped | .started => false
  | .reporting .. | .writing .. | .failed _ | .finished _ => true

/-- How far a worker has come agrees with what it got to see of its file. -/
def Fits (i : Injection) (strategy : Strategy) (path : Path) (content : Except DiskFault Text)
    (refusing : Bool) : Task → Prop
  | .waiting | .skipped | .started => True
  | .reporting _ pending result =>
    ∃ listed, i.examine strategy path content = (listed ++ pending, result)
  | .writing change text _ _ =>
    i.dryRun = false ∧ (i.examine strategy path content).2 = .ok (some (change, text))
  | .failed failure =>
    (i.examine strategy path content).2 = .error failure ∨
      refusing = true ∧ ∃ reason, failure = .write path reason
  | .finished change =>
    ∃ work : Work, (i.examine strategy path content).2 = .ok work ∧ change = work.map (·.1)

end Task

/-- What holds between the steps of a run that began on `d`. -/
structure Sound (i : Injection) (strategy : Strategy) (d : Disk) (files : List FileRef)
    (refusing : Bool) (s : State) : Prop where
  wf : s.disk.WellFormed
  besides : s.disk.besides = d.besides
  /-- Reads are refused only where that may happen, and to those who come to read. -/
  denied : ∀ file, s.refused file ≠ none → refusing = true ∧ (s.task file).hasRead = true
  fits : ∀ file ∈ files, (s.task file).Fits i strategy file.path (s.content d file) refusing
  /-- What was there is there, unless it was replaced. -/
  kept : ∀ place, d.look place ≠ none →
    (∀ file ∈ files, file.place = place → ¬ (s.task file).Replaces i) →
      s.disk.look place = d.look place
  replaced : ∀ file ∈ files, (s.task file).Replaces i → ∃ change text,
    (i.examine strategy file.path (s.content d file)).2 = .ok (some (change, text)) ∧
      s.disk.look file.place = some (.file (Text.encode text))
  temporary : ∀ file ∈ files, ∀ change text place written,
    s.task file = .writing change text place written → d.look place = none ∧
      s.disk.look place = some (.file ((Text.encode text).extract 0 written))
  /-- No two workers share a temporary file. -/
  own : ∀ file ∈ files, ∀ other ∈ files, ∀ place, (s.task file).temporary? = some place →
    (s.task other).temporary? = some place → file = other
  /-- What is new is a temporary file, except for what was left behind. -/
  new : refusing = false → ∀ place, d.look place = none → s.disk.look place ≠ none →
    ∃ file ∈ files, (s.task file).temporary? = some place

variable {i : Injection} {strategy : Strategy} {d : Disk} {files : List FileRef} {refusing : Bool}
  {s s' : State} {file : FileRef} {task : Task}

theorem sound_initial (wf : d.WellFormed) : Sound i strategy d files refusing (i.initial d) where
  wf := wf
  besides := rfl
  denied _ refused := absurd rfl refused
  fits _ _ := trivial
  kept _ _ _ := rfl
  replaced file _ replaces := by
    obtain ⟨-, change, equal⟩ := replaces
    cases equal
  temporary _ _ _ _ _ _ now := by cases now
  own _ _ _ _ _ now := by cases now
  new _ place absent found := absurd absent found

namespace Sound

variable (lists : Scan.Lists d files) (sound : Sound i strategy d files refusing s)

include lists sound

/-- The files of the run stay files. -/
theorem look_file (member : file ∈ files) :
    ∃ content, s.disk.look file.place = some (.file content) := by
  obtain ⟨content, seen⟩ := lists.seen file member
  by_cases replaces : (s.task file).Replaces i
  · obtain ⟨_, text, -, found⟩ := sound.replaced file member replaces
    exact ⟨_, found⟩
  · refine ⟨content, (sound.kept file.place (by simp [seen]) ?_).trans seen⟩
    intro other listed same
    rwa [lists.eq_of_place listed member same]

/-- A file that was not replaced is read as if no other worker had done anything. -/
theorem readFile_eq (member : file ∈ files) (waits : ¬ (s.task file).Replaces i) :
    s.disk.readFile file = d.readFile file := by
  obtain ⟨content, seen⟩ := lists.seen file member
  have same : s.disk.look file.place = d.look file.place := by
    refine sound.kept file.place (by simp [seen]) fun other listed same => ?_
    rwa [lists.eq_of_place listed member same]
  rw [Disk.readFile_of_file sound.wf (same.trans seen), Disk.readFile_of_file lists.wf seen,
    Disk.closed_of_besides sound.besides]

/-- What one worker does changes the disk at its own file and its own temporary file only, and leaves
the others where they are. -/
theorem work (member : file ∈ files) (tasks : s'.task = Function.update s.task file task)
    (wf : s'.disk.WellFormed) (besides : s'.disk.besides = d.besides)
    (reads : ∀ other, other ≠ file → s'.refused other = s.refused other)
    (denied : s'.refused file ≠ none → refusing = true ∧ task.hasRead = true)
    (elsewhere : ∀ place, place ≠ file.place → (s.task file).temporary? ≠ some place →
      task.temporary? ≠ some place → s'.disk.look place = s.disk.look place)
    (before : ¬ (s.task file).Replaces i)
    (result : ¬ task.Replaces i ∧ s'.disk.look file.place = s.disk.look file.place ∨
      task.Replaces i ∧ ∃ change text,
        (i.examine strategy file.path (s'.content d file)).2 = .ok (some (change, text)) ∧
        s'.disk.look file.place = some (.file (Text.encode text)))
    (fits : task.Fits i strategy file.path (s'.content d file) refusing)
    (writes : ∀ change text place written, task = .writing change text place written →
      d.look place = none ∧
        s'.disk.look place = some (.file ((Text.encode text).extract 0 written)) ∧
        ∀ other ∈ files, (s.task other).temporary? = some place → other = file)
    (cleans : refusing = false → ∀ place, (s.task file).temporary? = some place →
      task.temporary? ≠ some place → s'.disk.look place = none) :
    Sound i strategy d files refusing s' := by
  have self : s'.task file = task := by rw [tasks, Function.update_self]
  have others : ∀ {other}, other ≠ file → s'.task other = s.task other := fun different => by
    rw [tasks, Function.update_of_ne different]
  have oldTemporary : ∀ {place}, d.look place ≠ none → (s.task file).temporary? ≠ some place := by
    intro place taken now
    obtain ⟨change, text, written, now⟩ := Task.temporary?_eq_some.mp now
    exact taken (sound.temporary file member change text place written now).1
  have newTemporary : ∀ {place}, d.look place ≠ none → task.temporary? ≠ some place := by
    intro place taken now
    obtain ⟨change, text, written, now⟩ := Task.temporary?_eq_some.mp now
    exact taken (writes change text place written now).1
  have alone : ∀ other ∈ files, ∀ place, task.temporary? = some place →
      (s.task other).temporary? = some place → other = file := by
    intro other listed place now shared
    obtain ⟨change, text, written, now⟩ := Task.temporary?_eq_some.mp now
    exact (writes change text place written now).2.2 other listed shared
  have taken : ∀ {other}, other ∈ files → d.look other.place ≠ none := by
    intro other listed
    obtain ⟨content, seen⟩ := lists.seen other listed
    simp [seen]
  refine ⟨wf, besides, ?_, ?_, ?_, ?_, ?_, ?_, ?_⟩
  · intro other refused
    by_cases same : other = file
    · subst same
      rw [self]
      exact denied refused
    · rw [reads other same] at refused
      rw [others same]
      exact sound.denied other refused
  · intro other listed
    by_cases same : other = file
    · subst same
      rwa [self]
    · rw [others same, State.content_congr (reads other same)]
      exact sound.fits other listed
  · intro place here waits
    have old : s.disk.look place = d.look place := by
      refine sound.kept place here fun other listed same => ?_
      by_cases this : other = file
      · subst this
        exact before
      · rw [← others this]
        exact waits other listed same
    by_cases mine : place = file.place
    · subst mine
      have waiting := waits file member rfl
      rw [self] at waiting
      rcases result with ⟨-, same⟩ | ⟨replaces, -⟩
      · rw [same, old]
      · exact absurd replaces waiting
    · rw [elsewhere place mine (oldTemporary here) (newTemporary here), old]
  · intro other listed replaces
    by_cases same : other = file
    · subst same
      rw [self] at replaces
      rcases result with ⟨waits, -⟩ | ⟨-, done⟩
      · exact absurd replaces waits
      · exact done
    · rw [others same] at replaces
      have apart : other.place ≠ file.place := fun equal => same (lists.eq_of_place listed member equal)
      rw [elsewhere _ apart (oldTemporary (taken listed)) (newTemporary (taken listed)),
        State.content_congr (reads other same)]
      exact sound.replaced other listed replaces
  · intro other listed change text place written now
    by_cases same : other = file
    · subst same
      rw [self] at now
      obtain ⟨absent, found, -⟩ := writes change text place written now
      exact ⟨absent, found⟩
    · rw [others same] at now
      obtain ⟨absent, found⟩ := sound.temporary other listed change text place written now
      have writing : (s.task other).temporary? = some place := by rw [now]; rfl
      refine ⟨absent, ?_⟩
      rw [elsewhere place, found]
      · rintro rfl
        exact taken member absent
      · exact fun shared => same (sound.own other listed file member place writing shared)
      · exact fun shared => same (alone other listed place shared writing)
  · intro one first two second place now now'
    by_cases same : one = file
    · subst same
      by_contra different
      rw [self] at now
      rw [others (Ne.symm different)] at now'
      exact different (alone two second place now now').symm
    · rw [others same] at now
      by_cases same' : two = file
      · subst same'
        rw [self] at now'
        exact absurd (alone one first place now' now) same
      · rw [others same'] at now'
        exact sound.own one first two second place now now'
  · intro never place absent found
    by_cases mine : task.temporary? = some place
    · exact ⟨file, member, by rwa [self]⟩
    · by_cases old : (s.task file).temporary? = some place
      · exact absurd (cleans never place old mine) found
      · have apart : place ≠ file.place := by
          rintro rfl
          exact taken member absent
        rw [elsewhere place apart old mine] at found
        obtain ⟨other, listed, writing⟩ := sound.new never place absent found
        have different : other ≠ file := by
          rintro rfl
          exact old writing
        exact ⟨other, listed, by rwa [others different]⟩

/-- A step that leaves the disk as it is. -/
theorem still (member : file ∈ files) (tasks : s'.task = Function.update s.task file task)
    (sameDisk : s'.disk = s.disk)
    (reads : ∀ other, other ≠ file → s'.refused other = s.refused other)
    (denied : s'.refused file ≠ none → refusing = true ∧ task.hasRead = true)
    (before : (s.task file).Quiet i) (after : task.Quiet i)
    (fits : task.Fits i strategy file.path (s'.content d file) refusing) :
    Sound i strategy d files refusing s' := by
  refine sound.work lists member tasks (sameDisk ▸ sound.wf) (sameDisk ▸ sound.besides) reads denied
    ?_ before.2 (.inl ⟨after.2, by rw [sameDisk]⟩) fits ?_ ?_
  · intro place _ _ _
    rw [sameDisk]
  · intro change text place written now
    simp [now, Task.Quiet, Task.temporary?] at after
  · intro _ place now
    simp [before.1] at now

/-- A step that leaves the disk as it is and refuses no read. -/
theorem quiet (member : file ∈ files) (tasks : s'.task = Function.update s.task file task)
    (sameDisk : s'.disk = s.disk) (sameReads : s'.refused = s.refused)
    (before : (s.task file).Quiet i) (after : task.Quiet i)
    (goesOn : (s.task file).hasRead = true → task.hasRead = true)
    (fits : task.Fits i strategy file.path (s.content d file) refusing) :
    Sound i strategy d files refusing s' := by
  refine sound.still lists member tasks sameDisk (fun _ _ => by rw [sameReads]) ?_ before after ?_
  · intro refused
    rw [sameReads] at refused
    exact (sound.denied file refused).imp_right goesOn
  · rwa [State.content_congr (congrFun sameReads file)]

omit lists

theorem examine_of_reporting {counted : Bool} {pending : List Diagnostic}
    {result : Except Failure Work} (member : file ∈ files)
    (now : s.task file = .reporting counted pending result) :
    ∃ listed, i.examine strategy file.path (s.content d file) = (listed ++ pending, result) := by
  have fits := sound.fits file member
  rwa [now] at fits

theorem content_of_started (now : s.task file = .started) : s.content d file = d.readFile file := by
  refine State.content_of_allowed (not_not.mp fun refused => ?_)
  have read := (sound.denied file refused).2
  simp [now, Task.hasRead] at read

theorem content_of_never (never : refusing = false) : s.content d file = d.readFile file := by
  refine State.content_of_allowed (not_not.mp fun refused => ?_)
  have refuses := (sound.denied file refused).1
  simp [never] at refuses

/-- What was there never vanishes. -/
theorem look_ne_none {place : Place} (taken : d.look place ≠ none) : s.disk.look place ≠ none := by
  by_cases done : ∃ file ∈ files, file.place = place ∧ (s.task file).Replaces i
  · obtain ⟨file, member, rfl, replaces⟩ := done
    obtain ⟨_, text, -, found⟩ := sound.replaced file member replaces
    simp [found]
  · rw [sound.kept place taken fun file member here replaces => done ⟨file, member, here, replaces⟩]
    exact taken

include lists

/-- A temporary file stands beside the file that it is to replace. -/
theorem temporary_ne {change : Change} {text : Text} {temporary : Place} {written : Nat}
    (member : file ∈ files) (now : s.task file = .writing change text temporary written) :
    temporary ≠ file.place := by
  rintro rfl
  obtain ⟨content, seen⟩ := lists.seen file member
  simp [(sound.temporary file member change text _ written now).1] at seen

theorem stage {change : Change} {text name : Text} (member : file ∈ files)
    (now : s.task file = .reporting false [] (.ok (some (change, text)))) (wet : i.dryRun = false)
    (valid : IsEntryName name) (fresh : s.disk.look (file.place.dropLast ++ [name]) = none) :
    Sound i strategy d files refusing
      ({ s with disk := s.disk.put (file.place.dropLast ++ [name]) (.file .empty) }.turn file
        (.writing change text (file.place.dropLast ++ [name]) 0)) := by
  obtain ⟨content, seen⟩ := sound.look_file lists member
  obtain ⟨parent, last, placed, directory, -⟩ := sound.wf.exists_parent seen
  rw [placed, List.dropLast_concat] at fresh ⊢
  obtain ⟨wf, looks⟩ := sound.wf.put_file .empty directory valid (by simp [fresh])
  have absent : d.look (parent ++ [name]) = none := by
    by_contra taken
    exact sound.look_ne_none taken fresh
  obtain ⟨listed, equal⟩ := sound.examine_of_reporting member now
  have result : (i.examine strategy file.path (s.content d file)).2 = .ok (some (change, text)) := by
    rw [equal]
  refine sound.work lists member rfl wf sound.besides (fun _ _ => rfl)
    (fun refused => ⟨(sound.denied file refused).1, rfl⟩) ?_ (by simp [now, Task.Replaces])
    (.inl ⟨by simp [Task.Replaces], ?_⟩) ⟨wet, result⟩ ?_ ?_
  · intro place _ _ other
    have different : place ≠ parent ++ [name] := by
      rintro rfl
      exact other rfl
    exact (looks place).trans (if_neg different)
  · refine (looks file.place).trans (if_neg ?_)
    intro same
    rw [← same] at fresh
    simp [fresh] at seen
  · rintro _ _ _ _ ⟨⟩
    refine ⟨absent, (looks _).trans ?_, fun other listed shared => ?_⟩
    · simp
    · obtain ⟨change, text, written, writing⟩ := Task.temporary?_eq_some.mp shared
      have found := (sound.temporary other listed change text _ written writing).2
      simp [fresh] at found
  · intro _ place old
    simp [now, Task.temporary?] at old

theorem fill {change : Change} {text : Text} {temporary : Place} {written more : Nat}
    (member : file ∈ files) (now : s.task file = .writing change text temporary written) :
    Sound i strategy d files refusing
      ({ s with disk := s.disk.put temporary (.file ((Text.encode text).extract 0 more)) }.turn file
        (.writing change text temporary more)) := by
  obtain ⟨absent, found⟩ := sound.temporary file member change text temporary written now
  obtain ⟨wf, looks⟩ := sound.wf.put_over ((Text.encode text).extract 0 more) found
  have fits := sound.fits file member
  rw [now] at fits
  have old : (s.task file).temporary? = some temporary := by rw [now]; rfl
  refine sound.work lists member rfl wf sound.besides (fun _ _ => rfl)
    (fun refused => ⟨(sound.denied file refused).1, rfl⟩) ?_ (by simp [now, Task.Replaces])
    (.inl ⟨by simp [Task.Replaces], ?_⟩) fits ?_ ?_
  · intro place _ other _
    have different : place ≠ temporary := by
      rintro rfl
      exact other old
    exact (looks place).trans (if_neg different)
  · exact (looks file.place).trans (if_neg (sound.temporary_ne lists member now).symm)
  · rintro _ _ _ _ ⟨⟩
    refine ⟨absent, (looks _).trans (if_pos rfl), fun other listed shared => ?_⟩
    exact sound.own other listed file member temporary shared old
  · intro _ place was gone
    rw [old] at was
    exact absurd was gone

theorem commit {change : Change} {text : Text} {temporary : Place} (member : file ∈ files)
    (now : s.task file = .writing change text temporary (Text.encode text).size) :
    Sound i strategy d files refusing
      ({ s with disk := s.disk.rename temporary file.place }.turn file (.finished (some change))) := by
  obtain ⟨-, found⟩ := sound.temporary file member change text temporary _ now
  obtain ⟨content, seen⟩ := sound.look_file lists member
  have different := sound.temporary_ne lists member now
  -- All bytes were written before the move.
  have whole : (Text.encode text).extract 0 (Text.encode text).size = Text.encode text := by simp
  rw [whole] at found
  obtain ⟨wf, looks⟩ := sound.wf.rename_file found seen different
  have fits := sound.fits file member
  rw [now] at fits
  obtain ⟨wet, result⟩ := fits
  have old : (s.task file).temporary? = some temporary := by rw [now]; rfl
  refine sound.work lists member rfl wf ((Disk.rename_besides ..).trans sound.besides)
    (fun _ _ => rfl) (fun refused => ⟨(sound.denied file refused).1, rfl⟩) ?_
    (by simp [now, Task.Replaces])
    (.inr ⟨⟨wet, change, rfl⟩, change, text, result, (looks _).trans (if_pos rfl)⟩)
    ⟨some (change, text), result, rfl⟩ (by rintro _ _ _ _ ⟨⟩) ?_
  · intro place apart other _
    refine (looks place).trans ?_
    rw [if_neg apart, if_neg]
    rintro rfl
    exact other old
  · intro _ place was _
    obtain rfl : temporary = place := Option.some.inj (old.symm.trans was)
    refine (looks temporary).trans ?_
    rw [if_neg different, if_pos rfl]

theorem abandon {change : Change} {text reason : Text} {temporary : Place} {written : Nat}
    {disk : Disk} (member : file ∈ files)
    (now : s.task file = .writing change text temporary written) (refused : refusing = true)
    (left : disk = s.disk ∨ disk = { s.disk with tree := s.disk.tree.erase temporary }) :
    Sound i strategy d files refusing
      ({ s with disk }.turn file (.failed (.write file.path reason))) := by
  obtain ⟨-, found⟩ := sound.temporary file member change text temporary written now
  obtain ⟨erasedWf, erased⟩ := sound.wf.erase_file found
  have apart := (sound.temporary_ne lists member now).symm
  have looks : ∀ place, place ≠ temporary → disk.look place = s.disk.look place := by
    intro place different
    rcases left with rfl | rfl
    · rfl
    · rw [erased, if_neg different]
  refine sound.work lists member rfl ?_ ?_ (fun _ _ => rfl) (fun _ => ⟨refused, rfl⟩)
    ?_ (by simp [now, Task.Replaces]) (.inl ⟨by simp [Task.Replaces], looks file.place apart⟩)
    (.inr ⟨refused, reason, rfl⟩) (by rintro _ _ _ _ ⟨⟩) (by simp [refused])
  · rcases left with rfl | rfl
    · exact sound.wf
    · exact erasedWf
  · rcases left with rfl | rfl
    · exact sound.besides
    · exact sound.besides
  · intro place _ other _
    refine looks place ?_
    rintro rfl
    exact other (by rw [now]; rfl)

/-- The step lemma. -/
theorem advances (step : Advances i strategy files refusing s s') :
    Sound i strategy d files refusing s' := by
  cases step with
  | interrupt => exact ⟨sound.wf, sound.besides, sound.denied, sound.fits, sound.kept,
      sound.replaced, sound.temporary, sound.own, sound.new⟩
  | skip member now _ =>
    exact sound.quiet lists member rfl rfl rfl (by simp [now, Task.quiet_iff])
      (by simp [Task.quiet_iff]) (by simp [now, Task.hasRead]) trivial
  | start member now _ =>
    exact sound.quiet lists member rfl rfl rfl (by simp [now, Task.quiet_iff])
      (by simp [Task.quiet_iff]) (by simp [now, Task.hasRead]) trivial
  | @read file pending result member now found =>
    rw [sound.readFile_eq lists member (by simp [now, Task.Replaces]),
      ← sound.content_of_started now] at found
    exact sound.quiet lists member rfl rfl rfl (by simp [now, Task.quiet_iff])
      (by simp [Task.quiet_iff]) (fun _ => rfl) ⟨[], found⟩
  | @unread file pending result member now refused fault found =>
    have content : ({ s with refused := Function.update s.refused file (some fault) }.turn file
        (.reporting false pending result)).content d file = .error fault := by
      simp [State.content]
    refine sound.still lists member rfl rfl (fun _ different => Function.update_of_ne different ..)
      (fun _ => ⟨refused, rfl⟩) (by simp [now, Task.quiet_iff]) (by simp [Task.quiet_iff]) ?_
    rw [content]
    exact ⟨[], found⟩
  | @count file first pending result member now =>
    exact sound.quiet lists member rfl rfl rfl (by simp [now, Task.quiet_iff])
      (by simp [Task.quiet_iff]) (fun _ => rfl) (sound.examine_of_reporting member now)
  | @push file first pending result member now =>
    obtain ⟨listed, equal⟩ := sound.examine_of_reporting member now
    exact sound.quiet lists member rfl rfl rfl (by simp [now, Task.quiet_iff])
      (by simp [Task.quiet_iff]) (fun _ => rfl) ⟨listed ++ [first], by simp [equal]⟩
  | @fail file failure member now =>
    obtain ⟨listed, equal⟩ := sound.examine_of_reporting member now
    exact sound.quiet lists member rfl rfl rfl (by simp [now, Task.quiet_iff])
      (by simp [Task.quiet_iff]) (fun _ => rfl) (.inl (by rw [equal]))
  | @leave file member now =>
    obtain ⟨listed, equal⟩ := sound.examine_of_reporting member now
    exact sound.quiet lists member rfl rfl rfl (by simp [now, Task.quiet_iff])
      (by simp [Task.quiet_iff]) (fun _ => rfl) ⟨none, by rw [equal], rfl⟩
  | @preview file change text member now dry =>
    obtain ⟨listed, equal⟩ := sound.examine_of_reporting member now
    exact sound.quiet lists member rfl rfl rfl (by simp [now, Task.quiet_iff])
      (by simp [Task.quiet_iff, dry]) (fun _ => rfl) ⟨some (change, text), by rw [equal], rfl⟩
  | stage member now wet valid fresh => exact sound.stage lists member now wet valid fresh
  | fill member now grows within => exact sound.fill lists member now
  | commit member now noHook => exact sound.commit lists member now
  | refuse member now wet refused reason =>
    exact sound.quiet lists member rfl rfl rfl (by simp [now, Task.quiet_iff])
      (by simp [Task.quiet_iff]) (fun _ => rfl) (.inr ⟨refused, reason, rfl⟩)
  | abandon member now refused reason left => exact sound.abandon lists member now refused left

end Sound

/-- The run lemma. -/
theorem sound_of_reaches (lists : Scan.Lists d files)
    (reached : Reaches i strategy files refusing (i.initial d) s) :
    Sound i strategy d files refusing s := by
  induction reached with
  | refl => exact sound_initial lists.wf
  | tail _ step ih => exact ih.advances lists step

end Injection

end KeyGloss
