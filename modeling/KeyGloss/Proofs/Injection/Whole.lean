import KeyGloss.Proofs.Gloss.Settled
import KeyGloss.Proofs.Injection.OneByOne
import KeyGloss.Proofs.RoundTrip

/-!
# No file is left half written

Whatever the workers do, and wherever they are stopped, a file holds what it held before or all of what
the strategy makes of that; and the summary lists exactly the files that the strategy changes, except
those that an interruption left out and those that could not be read.
-/

namespace KeyGloss

/-- The source of a file by what reading it gave, if that is a text that can be cut into tokens. -/
def Source.of? (path : Path) (content : Except DiskFault Text) : Option Source :=
  content.toOption.bind fun text => (Source.read path text).toOption

theorem Source.of?_eq_some {path : Path} {content : Except DiskFault Text} {source : Source} :
    Source.of? path content = some source ↔
      ∃ text, content = .ok text ∧ Source.read path text = .ok source := by
  cases content with
  | error fault => simp [of?, Except.toOption]
  | ok text => cases read : Source.read path text <;> simp [of?, Except.toOption, read]

/-- Whether a strategy changes a file, by what reading it gave. -/
def Strategy.changes (strategy : Strategy) (path : Path) (content : Except DiskFault Text) : Bool :=
  (Source.of? path content).any fun source => (strategy.apply source).1.changed

namespace Injection

variable {i : Injection} {strategy : Strategy} {path : Path} {content : Except DiskFault Text}

/-- A file that cannot be read as a source is reported once, and nothing is done to it. -/
theorem examine_of_unreadable (i : Injection) (strategy : Strategy)
    (unreadable : Source.of? path content = none) :
    ∃ reason, i.examine strategy path content =
      ([(Diagnostic.unreadable (i.displayPath path) reason).relativize i.root], .ok none) := by
  cases content with
  | error fault => exact ⟨_, rfl⟩
  | ok text =>
    cases read : Source.read path text with
    | error failure => exact ⟨failure.message, by simp [examine, read]⟩
    | ok source => simp [Source.of?, Except.toOption, read] at unreadable

theorem examine_of_source {source : Source} (readable : Source.of? path content = some source) :
    i.examine strategy path content =
      ((strategy.apply source).2.1.map (Diagnostic.relativize i.root),
        (strategy.apply source).2.2.map (i.workOf path (strategy.apply source).1)) := by
  obtain ⟨text, rfl, read⟩ := Source.of?_eq_some.mp readable
  simp [examine, read]

/-- What the work on a file comes to: the whole text that the strategy gives when it changes the
file, and nothing otherwise. -/
theorem examine_work {work : Work} (result : (i.examine strategy path content).2 = .ok work) :
    work = none ∧ strategy.changes path content = false ∨
      ∃ change source, work = some (change, (strategy.apply source).1.text) ∧
        strategy.changes path content = true ∧ change.path = path ∧
        Source.of? path content = some source := by
  unfold Strategy.changes
  cases readable : Source.of? path content with
  | none =>
    obtain ⟨reason, equal⟩ := examine_of_unreadable i strategy readable
    rw [equal] at result
    exact .inl ⟨(Except.ok.inj result).symm, rfl⟩
  | some source =>
    rw [examine_of_source readable] at result
    cases applied : (strategy.apply source).2.2 with
    | error failure => simp [applied, Except.map] at result
    | ok outcome =>
      simp only [applied, Except.map, workOf, Except.ok.injEq] at result
      cases changed : (strategy.apply source).1.changed with
      | false =>
        rw [changed] at result
        exact .inl ⟨result.symm, changed⟩
      | true =>
        rw [changed] at result
        exact .inr ⟨_, source, result.symm, changed, rfl, rfl⟩

/-- Glossing a text in which a key is used. -/
theorem examine_gloss {keys : KeyMap} {text : Text} {n : Nat} (i : Injection) (path : Path)
    (readable : (Source.read path text).toOption.isSome = true)
    (ends : Gloss.EndsAfter keys text (n + 1)) :
    ∃ change after, change.path = path ∧
      i.examine (.gloss keys) path (.ok text) = ([], .ok (some (change, after))) := by
  obtain ⟨source, sourced⟩ := Option.isSome_iff_exists.mp readable
  have found : Source.of? path (.ok text) = some source := sourced
  obtain ⟨_, equal, read⟩ := Source.of?_eq_some.mp found
  obtain rfl := Except.ok.inj equal
  obtain ⟨-, lexes, -, -⟩ := Source.lexes_of_read read
  have same : source.text = text := lexes.concat_eq
  have changed := Gloss.changed_of_endsAfter (s := source) (same ▸ ends)
  rw [examine_of_source found]
  simp [Strategy.apply, workOf, changed, Except.map]

variable {d : Disk} {files : List FileRef} {refusing : Bool} {s : State}

/-- A worker whose read was refused does nothing to its file, so one who does something, or fails, got to
see what the file held. -/
theorem content_of_examine {file : FileRef} {result : Except Failure Work}
    (examined : (i.examine strategy file.path (s.content d file)).2 = result)
    (works : result ≠ .ok none) : s.content d file = d.readFile file := by
  cases refused : s.refused file with
  | none => exact State.content_of_allowed refused
  | some fault =>
    have seen : s.content d file = .error fault := by rw [State.content, refused]
    rw [seen] at examined
    exact absurd examined.symm works

/-- Whether the work on a file was left out. -/
def Task.isSkipped : Task → Bool
  | .skipped => true
  | _ => false

/-- What stands at the place of a file once it was replaced: what the strategy makes of what stood
there. -/
theorem Sound.look_of_replaces {file : FileRef} {bytes : ByteArray} (lists : Scan.Lists d files)
    (sound : Sound i strategy d files refusing s) (member : file ∈ files)
    (seen : d.look file.place = some (.file bytes)) (replaces : (s.task file).Replaces i) :
    ∃ text source, Text.decode? bytes = some text ∧ Source.read file.path text = .ok source ∧
      s.disk.look file.place = some (.file (Text.encode (strategy.apply source).1.text)) := by
  obtain ⟨change, output, result, found⟩ := sound.replaced file member replaces
  rw [content_of_examine result (by simp), Disk.readFile_of_file lists.wf seen] at result
  rcases examine_work result with ⟨nothing, -⟩ | ⟨_, source, equal, -, -, readable⟩
  · cases nothing
  obtain ⟨-, rfl⟩ := Prod.mk.inj (Option.some.inj equal)
  obtain ⟨text, read, sourced⟩ := Source.of?_eq_some.mp readable
  have decoded : Text.decode? bytes = some text := by
    split at read
    · cases read
    · split at read
      · cases read
      · unfold Disk.textOf at read
        split at read
        · next equal => rw [equal, Except.ok.inj read]
        · cases read
  exact ⟨text, source, decoded, sourced, found⟩

/-- The change of a file whose work ended without a failure. -/
theorem Sound.change?_eq {file : FileRef} (sound : Sound i strategy d files refusing s)
    (member : file ∈ files) (done : (s.task file).isDone = true) :
    (s.task file).change?.map (·.path) =
      if !(s.task file).isSkipped && (s.refused file).isNone &&
          strategy.changes file.path (d.readFile file) then
        some file.path
      else none := by
  have seen : strategy.changes file.path (s.content d file) =
      ((s.refused file).isNone && strategy.changes file.path (d.readFile file)) := by
    rw [State.content]
    cases s.refused file <;> rfl
  have fits := sound.fits file member
  rcases Task.isDone_iff.mp done with now | ⟨change, now⟩
  · rw [now]
    rfl
  · rw [now] at fits ⊢
    obtain ⟨work, result, rfl⟩ := fits
    rcases examine_work result with ⟨rfl, same⟩ | ⟨change, source, rfl, changes, path, -⟩
    · rw [seen] at same
      simp [Task.change?, Bool.and_assoc, same]
    · rw [seen] at changes
      simp [Task.change?, Task.isSkipped, changes, path]

/-- The changes of a run that is over are those of the files that were not left out. -/
theorem Sound.changes_eq (sound : Sound i strategy d files refusing s) {listed : List FileRef}
    (within : ∀ file ∈ listed, file ∈ files ∧ (s.task file).isDone = true) :
    (listed.filterMap fun file => (s.task file).change?).map (·.path) =
      (listed.filter fun file => !(s.task file).isSkipped && (s.refused file).isNone &&
        strategy.changes file.path (d.readFile file)).map (·.path) := by
  induction listed with
  | nil => rfl
  | cons file listed ih =>
    obtain ⟨⟨member, done⟩, rest⟩ := List.forall_mem_cons.mp within
    have here := sound.change?_eq member done
    have later := ih rest
    rw [List.filterMap_cons, List.filter_cons]
    split at here
    · next changes =>
      obtain ⟨change, equal, path⟩ := Option.map_eq_some_iff.mp here
      rw [equal, changes, if_pos rfl]
      simp only [List.map_cons, path, later]
    · next same =>
      rw [Option.map_eq_none_iff.mp here, if_neg same]
      exact later

/-- The changes are found in the order of their paths, so that sorting them moves nothing. -/
theorem Sound.sorted_changes (lists : Scan.Lists d files)
    (sound : Sound i strategy d files refusing s)
    (done : ∀ file ∈ files, (s.task file).isDone = true) :
    (s.summary i files).changes = files.filterMap fun file => (s.task file).change? := by
  refine List.mergeSort_of_pairwise ?_
  have paths := sound.changes_eq fun file member => ⟨member, done file member⟩
  have ordered : ((files.filterMap fun file => (s.task file).change?).map (·.path)).Pairwise
      fun a b => a.le b = true := by
    rw [paths, List.pairwise_map]
    exact lists.ordered.filter _
  rwa [List.pairwise_map] at ordered

/-- No file is ever half rewritten. In every state that workers can get to, in whatever order they take
their steps, wherever the run is interrupted and whichever reads and writes are refused: a file of the
disk holds what it held, or it is one of the files of the run and holds all that the strategy makes of
what it held; what is no file of the run is as it was, and so is the module of keys; and when the run
gives a summary, this lists the files that the strategy changes, except those that were left out and
those whose read was refused. -/
theorem reaches_whole (i : Injection) (keys : KeyMap) (d : Disk) (strategy : Strategy) (scan : Scan)
    (s : State) (wf : d.WellFormed) (prepared : i.prepare keys d = .ok (strategy, scan))
    (reached : Reaches i strategy scan.files true (i.initial d) s) :
    (∀ place bytes, d.look place = some (.file bytes) →
      s.disk.look place = some (.file bytes) ∨
        ∃ file ∈ scan.files, file.place = place ∧ ∃ text source, Text.decode? bytes = some text ∧
          Source.read file.path text = .ok source ∧
          s.disk.look place = some (.file (Text.encode (strategy.apply source).1.text))) ∧
    (∀ place, d.look place ≠ none → (∀ file ∈ scan.files, file.place ≠ place) →
      s.disk.look place = d.look place) ∧
    (∀ file, Scan.findModule d i.root i.identifierModule = .ok file →
      s.disk.look file.place = d.look file.place) ∧
    ∀ summary, s.Returns i scan.files (.ok summary) →
      summary.changes.map (·.path) =
        (scan.files.filter fun file => !(s.task file).isSkipped && (s.refused file).isNone &&
          strategy.changes file.path (d.readFile file)).map (·.path) := by
  have lists := lists_of_prepare wf prepared
  have sound := sound_of_reaches lists reached
  have others : ∀ place, d.look place ≠ none → (∀ file ∈ scan.files, file.place ≠ place) →
      s.disk.look place = d.look place := fun place taken other =>
    sound.kept place taken fun file member here => absurd here (other file member)
  refine ⟨fun place bytes seen => ?_, others, fun file found => ?_, fun summary returned => ?_⟩
  · by_cases replaced : ∃ file ∈ scan.files, file.place = place ∧ (s.task file).Replaces i
    · obtain ⟨file, member, rfl, replaces⟩ := replaced
      obtain ⟨text, source, whole⟩ := sound.look_of_replaces lists member seen replaces
      exact .inr ⟨file, member, rfl, text, source, whole⟩
    · refine .inl ((sound.kept place (by simp [seen]) fun file member here replaces => ?_).trans seen)
      exact replaced ⟨file, member, here, replaces⟩
  · obtain ⟨⟨content, seen⟩, apart⟩ := module_not_listed wf prepared found
    exact others file.place (by simp [seen]) apart
  · cases returned with
    | summary done =>
      rw [sound.sorted_changes lists done]
      exact sound.changes_eq fun file member => ⟨member, done file member⟩

/-- A worker has filled its temporary file and has not moved it yet, and the read of another file was
refused. -/
theorem reaches_whole_not_moved :
    let i : Injection := { root := ("/p" : Text) }
    let keys : KeyMap := KeyMap.ofTriples [("k", "en", "K")]
    let d : Disk :=
      { tree := .directory [(("p" : Text),
          .directory [(("a.ts" : Text), .file (Text.encode "t('k')")),
            (("b.ts" : Text), .file (Text.encode "t('k')"))])] }
    let file : FileRef := ⟨("/p/a.ts" : Text), ["p", "a.ts"]⟩
    let other : FileRef := ⟨("/p/b.ts" : Text), ["p", "b.ts"]⟩
    ∃ s change text, i.prepare keys d = .ok (.gloss keys, { files := [file, other] }) ∧
      Reaches i (.gloss keys) [file, other] true (i.initial d) s ∧
      s.task file = .writing change text ["p", "x"] (Text.encode text).size ∧
      s.refused other = some .denied ∧
      (s.disk.look file.place = some (.file (Text.encode "t('k')")) ∨
        ∃ source, Source.read file.path ("t('k')" : Text) = .ok source ∧ s.disk.look file.place =
          some (.file (Text.encode (Strategy.apply (.gloss keys) source).1.text))) := by
  intro i keys d file other
  have wf : d.WellFormed := by decide +kernel
  have leads : d.find true i.root = .ok (["p"], _) := Disk.find_of_placeOf (by decide +kernel)
  have prepared : i.prepare keys d = .ok (.gloss keys, { files := [file, other] }) :=
    prepare_gloss rfl (Disk.walk_of_directory leads) (by decide +kernel) (by decide +kernel)
  have seen : d.look file.place = some (.file (Text.encode "t('k')")) := rfl
  obtain ⟨change, text, -, worked⟩ := examine_gloss (n := 0) i file.path (by decide +kernel)
    (by decide +kernel : Gloss.EndsAfter keys "t('k')" 1)
  have found : i.examine (.gloss keys) file.path (d.readFile file) =
      ([], .ok (some (change, text))) := by
    rw [Disk.readFile_of_text wf seen (by decide +kernel) List.not_mem_nil, worked]
  have member : file ∈ [file, other] := List.mem_cons_self
  have member' : other ∈ [file, other] := List.mem_cons_of_mem _ (List.mem_singleton_self _)
  -- The read of `other` is refused; then `file` is read, and its temporary file is filled.
  obtain ⟨s, denied, disk, going, waits, refused⟩ : ∃ s : State,
      Reaches i (.gloss keys) [file, other] true (i.initial d) s ∧ s.disk = d ∧ s.cancelled = false ∧
        s.task file = .waiting ∧ s.refused other = some .denied :=
    ⟨_, .tail (.single (.start member' rfl rfl))
      (.unread member' State.turn_task_self rfl .denied rfl), rfl, rfl, rfl, rfl⟩
  have examined := denied.trans (reaches_examined member waits going (disk.symm ▸ found))
  have fresh : s.disk.look (file.place.dropLast ++ [("x" : Text)]) = none := by
    rw [disk]
    rfl
  have staged := examined.tail (.stage member State.turn_task_self rfl (by decide) fresh)
  have filled := staged.tail (.fill member State.turn_task_self (Nat.zero_le _) (Nat.le_refl _))
  refine ⟨_, change, text, prepared, filled, State.turn_task_self, refused, ?_⟩
  rcases (reaches_whole i keys d _ _ _ wf prepared filled).1 file.place _ seen with same | whole
  · exact .inl same
  · obtain ⟨written, listed, placed, before, source, decodes, sourced, whole⟩ := whole
    obtain rfl := (lists_of_prepare wf prepared).eq_of_place listed member placed
    obtain rfl := Option.some.inj (decodes.symm.trans (Text.decode?_encode _))
    exact .inr ⟨source, sourced, whole⟩

end Injection

end KeyGloss
