import KeyGloss.Proofs.Injection.Sound

/-!
# Files one by one

The run that works on its files one after the other is one of the interleavings of its workers.
-/

namespace KeyGloss

theorem Disk.exists_fresh {d : Disk} {parent : Place} (directory : d.look parent = some .directory) :
    ∃ name, IsEntryName name ∧ d.look (parent ++ [name]) = none := by
  obtain ⟨entries, found⟩ := Node.look_eq_directory.mp directory
  -- A name longer than all others is none of them.
  let fresh : Text := 'x' :: List.replicate (Dictionary.keys entries).flatten.length 'x'
  have valid : IsEntryName fresh := by
    refine ⟨by simp [fresh], by simp [fresh], by simp [fresh], fun slash => ?_⟩
    rcases List.mem_cons.mp slash with same | later
    · cases same
    · cases List.eq_of_mem_replicate later
  refine ⟨fresh, valid, ?_⟩
  rw [look, Node.look, Node.at?_append, found, Option.bind_some, Node.at?]
  cases taken : Dictionary.get? entries fresh with
  | none => rfl
  | some node =>
    have listed : fresh ∈ Dictionary.keys entries :=
      List.mem_map.mpr ⟨_, Dictionary.mem_of_get? taken, rfl⟩
    have longer := (List.sublist_flatten_of_mem listed).length_le
    rw [List.length_cons, List.length_replicate] at longer
    omega

namespace Injection

variable {i : Injection} {strategy : Strategy} {d : Disk} {files : List FileRef} {refusing : Bool}
  {s : State} {file : FileRef}

theorem State.turn_eq_self {task : Task} (now : s.task file = task) : s.turn file task = s := by
  subst now
  simp [State.turn]

/-- A worker lists its diagnostics while the others wait. -/
theorem reaches_reported {pending : List Diagnostic} {result : Except Failure Work}
    (member : file ∈ files) (now : s.task file = .reporting false pending result) :
    Reaches i strategy files refusing s
      ({ s with
          warnings := s.warnings + pending.length
          diagnostics := s.diagnostics ++ pending }.turn file (.reporting false [] result)) := by
  induction pending generalizing s with
  | nil =>
    simp only [List.length_nil, Nat.add_zero, List.append_nil]
    rw [State.turn_eq_self now]
  | cons first pending ih =>
    refine .head (.count member now) (.head (.push member State.turn_task_self) ?_)
    have rest := ih (s := { s with
      warnings := s.warnings + 1
      diagnostics := s.diagnostics ++ [first] }.turn file (.reporting false pending result))
      State.turn_task_self
    simp only [State.turn, Function.update_idem, List.append_assoc, List.singleton_append] at rest ⊢
    rwa [List.length_cons, Nat.add_comm pending.length 1, ← Nat.add_assoc]

/-- A worker puts the new text in the place of its file while the others wait. -/
theorem reaches_written {change : Change} {text : Text} {old : ByteArray} (wf : s.disk.WellFormed)
    (seen : s.disk.look file.place = some (.file old)) (member : file ∈ files)
    (now : s.task file = .reporting false [] (.ok (some (change, text)))) (wet : i.dryRun = false)
    (noHook : i.hook = none) :
    Reaches i strategy files refusing s
      ({ s with disk := s.disk.put file.place (.file (Text.encode text)) }.turn file
        (.finished (some change))) := by
  obtain ⟨parent, last, placed, directory, valid⟩ := wf.exists_parent seen
  obtain ⟨name, named, fresh⟩ := Disk.exists_fresh directory
  have beside : file.place.dropLast = parent := by rw [placed, List.dropLast_concat]
  have apart : parent ++ [name] ≠ file.place := by
    intro same
    rw [same, seen] at fresh
    cases fresh
  -- The disk once the temporary file is there, once it is filled, and once it was moved.
  obtain ⟨stagedWf, staged⟩ := wf.put_file .empty directory named (by simp [fresh])
  obtain ⟨filledWf, filled⟩ := stagedWf.put_over (Text.encode text)
    ((staged (parent ++ [name])).trans (if_pos rfl))
  have moved := filledWf.rename_file ((filled (parent ++ [name])).trans (if_pos rfl))
    ((filled file.place).trans (by rw [if_neg apart.symm, staged, if_neg apart.symm, seen])) apart
  obtain ⟨wholeWf, whole⟩ := wf.put_over (Text.encode text) seen
  have same : ((s.disk.put (parent ++ [name]) (.file .empty)).put (parent ++ [name])
      (.file (Text.encode text))).rename (parent ++ [name]) file.place =
        s.disk.put file.place (.file (Text.encode text)) := by
    refine moved.1.ext wholeWf (fun place => ?_) (by simp)
    rw [moved.2, whole, filled, staged]
    split
    · rfl
    · split
      · next here => rw [here, fresh]
      · rfl
  refine .head (.stage member now wet named (by rwa [beside])) ?_
  refine .head (.fill member State.turn_task_self (Nat.zero_le _) (Nat.le_refl _)) ?_
  refine .head (.commit member State.turn_task_self noHook) ?_
  simp only [State.turn, Function.update_idem, beside, ByteArray.extract_zero_size, same]
  exact .refl

/-- The disk after the work on a file. -/
def diskAfter (i : Injection) (d : Disk) (file : FileRef) : Work → Disk
  | some (_, text) => if i.dryRun then d else d.put file.place (.file (Text.encode text))
  | none => d

/-- What the work on one file does when all others wait. -/
theorem visit_eq {p : Progress} {content : ByteArray} (going : i.cancelled = false)
    (wf : p.disk.WellFormed) (seen : p.disk.look file.place = some (.file content)) :
    i.visit strategy none p file =
      match i.examine strategy file.path (p.disk.readFile file) with
      | (pending, .ok work) =>
        ({ disk := i.diskAfter p.disk file work, changes := p.changes ++ (work.map Prod.fst).toList
           diagnostics := p.diagnostics ++ pending }, .ok ())
      | (pending, .error failure) =>
        ({ p with diagnostics := p.diagnostics ++ pending }, .error failure) := by
  unfold visit
  rw [going, if_neg (by simp)]
  obtain ⟨pending, result⟩ := i.examine strategy file.path (p.disk.readFile file)
  rcases result with failure | _ | ⟨change, text⟩
  · rfl
  · simp [diskAfter]
  · cases dry : i.dryRun with
    | true => simp [diskAfter, dry]
    | false => simp [diskAfter, dry, Disk.replacePlace_of_file _ wf seen, format]

/-- The work on one file when all others wait, up to its end. -/
theorem reaches_worked {work : Work} {content : ByteArray} (wf : s.disk.WellFormed)
    (seen : s.disk.look file.place = some (.file content)) (member : file ∈ files)
    (now : s.task file = .reporting false [] (.ok work)) (noHook : i.hook = none) :
    Reaches i strategy files refusing s
      ({ s with disk := i.diskAfter s.disk file work }.turn file (.finished (work.map Prod.fst))) := by
  rcases work with _ | ⟨change, text⟩
  · exact .single (.leave member now)
  · cases dry : i.dryRun with
    | true =>
      simp only [diskAfter, dry, if_true]
      exact .single (.preview member now dry)
    | false =>
      simp only [diskAfter, dry, Bool.false_eq_true, if_false]
      exact reaches_written wf seen member now dry noHook

/-- A state in which the files `done` are done one by one and the files `rest` wait. -/
structure Follows (i : Injection) (done rest : List FileRef) (p : Progress) (s : State) : Prop where
  disk : s.disk = p.disk
  diagnostics : s.diagnostics = p.diagnostics
  warnings : s.warnings = p.diagnostics.length
  cancelled : s.cancelled = i.cancelled
  changes : p.changes = done.filterMap fun file => (s.task file).change?
  finished : ∀ file ∈ done, (s.task file).isDone = true
  waiting : ∀ file ∈ rest, s.task file = .waiting

variable {done rest : List FileRef} {p p' : Progress}

/-- The next file is done, and no other worker has moved. -/
theorem Follows.next {s' : State} (follows : Follows i done (file :: rest) p s)
    (apart : (done ++ file :: rest).Nodup) (task : Task) (isDone : task.isDone = true)
    (tasks : s'.task = Function.update s.task file task) (disk : s'.disk = p'.disk)
    (diagnostics : s'.diagnostics = p'.diagnostics) (warnings : s'.warnings = p'.diagnostics.length)
    (cancelled : s'.cancelled = s.cancelled)
    (changes : p'.changes = p.changes ++ task.change?.toList) :
    Follows i (done ++ [file]) rest p' s' := by
  have self : s'.task file = task := by rw [tasks, Function.update_self]
  have others : ∀ {other}, other ≠ file → s'.task other = s.task other := fun different => by
    rw [tasks, Function.update_of_ne different]
  have before : ∀ {other}, other ∈ done → other ≠ file := by
    rintro other member rfl
    exact List.disjoint_of_nodup_append apart member List.mem_cons_self
  have after : ∀ {other}, other ∈ rest → other ≠ file := by
    rintro other member rfl
    exact (List.nodup_cons.mp (List.nodup_append.mp apart).2.1).1 member
  refine ⟨disk, diagnostics, warnings, cancelled.trans follows.cancelled, ?_, ?_, ?_⟩
  · rw [changes, follows.changes, List.filterMap_append]
    congr 1
    · exact List.filterMap_congr fun other member => by rw [others (before member)]
    · cases equal : task.change? <;> simp [self, equal]
  · intro other member
    rcases List.mem_append.mp member with old | new
    · rw [others (before old)]
      exact follows.finished other old
    · obtain rfl := List.mem_singleton.mp new
      rwa [self]
  · intro other member
    rw [others (after member)]
    exact follows.waiting other (List.mem_cons_of_mem _ member)

/-- A worker starts its file, reads it and lists the diagnostics while the others wait. -/
theorem reaches_examined {pending : List Diagnostic} {result : Except Failure Work}
    (member : file ∈ files) (now : s.task file = .waiting) (going : s.cancelled = false)
    (found : i.examine strategy file.path (s.disk.readFile file) = (pending, result)) :
    Reaches i strategy files refusing s
      ({ s with
          warnings := s.warnings + pending.length
          diagnostics := s.diagnostics ++ pending }.turn file (.reporting false [] result)) := by
  refine .head (.start member now going) (.head (.read member State.turn_task_self found) ?_)
  have rest : Reaches i strategy files refusing (s.turn file (.reporting false pending result)) _ :=
    reaches_reported member State.turn_task_self
  simpa only [State.turn, Function.update_idem] using rest

/-- A worker does all its work while the others wait. -/
theorem reaches_finished {pending : List Diagnostic} {work : Work} {content : ByteArray}
    (wf : s.disk.WellFormed) (seen : s.disk.look file.place = some (.file content))
    (member : file ∈ files) (now : s.task file = .waiting) (going : s.cancelled = false)
    (found : i.examine strategy file.path (s.disk.readFile file) = (pending, .ok work))
    (noHook : i.hook = none) :
    Reaches i strategy files refusing s
      ({ s with
          disk := i.diskAfter s.disk file work
          warnings := s.warnings + pending.length
          diagnostics := s.diagnostics ++ pending }.turn file (.finished (work.map Prod.fst))) := by
  refine (reaches_examined member now going found).trans ?_
  have worked : Reaches i strategy files refusing
      ({ s with
          warnings := s.warnings + pending.length
          diagnostics := s.diagnostics ++ pending }.turn file (.reporting false [] (.ok work))) _ :=
    reaches_worked wf seen member State.turn_task_self noHook
  simpa only [State.turn, Function.update_idem] using worked

/-- The work on the next file, from its start to its end. -/
theorem visit_reaches (lists : Scan.Lists d files) (noHook : i.hook = none)
    (split : files = done ++ file :: rest)
    (reached : Reaches i strategy files false (i.initial d) s)
    (follows : Follows i done (file :: rest) p s) :
    ∃ s', Reaches i strategy files false s s' ∧
      match i.visit strategy none p file with
      | (p', .ok ()) => Follows i (done ++ [file]) rest p' s'
      | (p', .error failure) => s'.disk = p'.disk ∧ s'.Returns i files (.error failure) := by
  have member : file ∈ files := by simp [split]
  have apart : (done ++ file :: rest).Nodup := split ▸ lists.nodup
  have now := follows.waiting file List.mem_cons_self
  cases interrupted : i.cancelled with
  | true =>
    refine ⟨_, .single (.skip member now (follows.cancelled.trans interrupted)), ?_⟩
    rw [visit, interrupted, if_pos rfl]
    exact follows.next apart .skipped rfl rfl follows.disk follows.diagnostics follows.warnings rfl
      (by simp [Task.change?])
  | false =>
    have sound := sound_of_reaches lists reached
    obtain ⟨content, seen⟩ := sound.look_file lists member
    rw [visit_eq interrupted (follows.disk ▸ sound.wf) (follows.disk ▸ seen), ← follows.disk]
    cases found : i.examine strategy file.path (s.disk.readFile file) with
    | mk pending result =>
      cases result with
      | error failure =>
        have examined : Reaches i strategy files false s _ :=
          reaches_examined member now (follows.cancelled.trans interrupted) found
        refine ⟨_, examined.tail (.fail member State.turn_task_self), rfl, ?_⟩
        refine .failure member State.turn_task_self fun other inside => ?_
        by_cases same : other = file
        · subst same
          rw [State.turn_task_self]
          rfl
        · rw [State.turn_task_of_ne same, State.turn_task_of_ne same]
          rw [split] at inside
          rcases List.mem_append.mp inside with before | after
          · exact Task.isIdle_of_isDone (follows.finished other before)
          · exact (congrArg Task.isIdle (follows.waiting other after)).trans rfl
      | ok work =>
        refine ⟨_, reaches_finished sound.wf seen member now (follows.cancelled.trans interrupted) found
          noHook, ?_⟩
        exact follows.next apart (.finished (work.map Prod.fst)) rfl rfl rfl
          (by simp [State.turn, follows.diagnostics])
          (by simp [State.turn, follows.warnings]) rfl rfl

/-- The work on all files that wait, one after the other. -/
theorem visitAll_reaches (lists : Scan.Lists d files) (noHook : i.hook = none)
    (split : files = done ++ rest)
    (reached : Reaches i strategy files false (i.initial d) s) (follows : Follows i done rest p s) :
    ∃ s', Reaches i strategy files false s s' ∧
      match i.visitAll strategy none p rest with
      | (p', .ok ()) => Follows i files [] p' s'
      | (p', .error failure) => s'.disk = p'.disk ∧ s'.Returns i files (.error failure) := by
  induction rest generalizing done p s with
  | nil =>
    rw [List.append_nil] at split
    exact ⟨s, .refl, split ▸ follows⟩
  | cons file rest ih =>
    obtain ⟨s', step, after⟩ := visit_reaches lists noHook split reached follows
    unfold visitAll
    cases visited : i.visit strategy none p file with
    | mk p' result =>
      rw [visited] at after
      cases result with
      | error failure => exact ⟨s', step, after⟩
      | ok _ =>
        obtain ⟨s'', steps, final⟩ := ih (by simp [split]) (reached.trans step) after
        exact ⟨s'', step.trans steps, final⟩

/-- A run that works on its files one by one is an interleaving in which no write is refused. -/
theorem run_reaches {keys : KeyMap} {scan : Scan} (wf : d.WellFormed)
    (prepared : i.prepare keys d = .ok (strategy, scan)) (noHook : i.hook = none) :
    ∃ s, Reaches i strategy scan.files false (i.initial d) s ∧ s.disk = (i.run keys d).1 ∧
      s.Returns i scan.files (i.run keys d).2 := by
  have lists := lists_of_prepare wf prepared
  obtain ⟨s, reached, after⟩ := visitAll_reaches lists noHook (List.nil_append _).symm .refl
    (⟨rfl, rfl, rfl, rfl, rfl, by simp, fun _ _ => rfl⟩ :
      Follows i [] scan.files { disk := d } (i.initial d))
  refine ⟨s, reached, ?_⟩
  cases visited : i.visitAll strategy none { disk := d } scan.files with
  | mk p result =>
    rw [visited] at after
    cases result with
    | error failure => simpa only [run, prepared, noHook, visited] using after
    | ok _ =>
      simp only [run, prepared, noHook, visited]
      refine ⟨after.disk, ?_⟩
      have same : i.summarize scan.files.length p = s.summary i scan.files := by
        rw [State.summary, ← after.changes, after.diagnostics, after.warnings, after.cancelled]
        rfl
      rw [same]
      exact .summary after.finished

end Injection

end KeyGloss
