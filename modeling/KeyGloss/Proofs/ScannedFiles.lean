import KeyGloss.Injection
import KeyGloss.Proofs.Disk.Walk
import KeyGloss.Proofs.Order

/-!
# The files of a run

What a run works on: files that stand at places of their own, in the order of their paths, and never
the module of keys. On a disk that is written out the files are found by evaluation (`prepare_gloss`).
-/

namespace KeyGloss

/-- Files of a disk, each listed once, in the order of their paths. -/
structure Scan.Lists (d : Disk) (files : List FileRef) : Prop where
  wf : d.WellFormed
  seen : ∀ file ∈ files, ∃ content, d.look file.place = some (.file content)
  apart : (files.map (·.place)).Nodup
  ordered : files.Pairwise fun a b => a.path.le b.path = true

namespace Scan

variable {d : Disk} {files : List FileRef}

theorem Lists.nodup (lists : Lists d files) : files.Nodup := lists.apart.of_map _

theorem Lists.eq_of_place {f g : FileRef} (lists : Lists d files) (first : f ∈ files)
    (second : g ∈ files) (same : f.place = g.place) : f = g :=
  List.inj_on_of_nodup_map lists.apart first second same

theorem mem_ofRoot {root : Path} {extensions : List Text} {ignores : IgnoreSet} {file : FileRef} :
    file ∈ (ofRoot d root extensions ignores).files ↔
      ∃ met, d.walk (fun _ => true) root = .ok met ∧ file ∈ met.filterMap Met.file? ∧
        wanted extensions ignores file = true := by
  unfold ofRoot
  cases d.walk (fun _ => true) root with
  | error fault => simp
  | ok met => simp [List.mem_mergeSort]

theorem lists_ofRoot (wf : d.WellFormed) (root : Path) (extensions : List Text)
    (ignores : IgnoreSet) : Lists d (ofRoot d root extensions ignores).files := by
  obtain ⟨pathAt, walk⟩ := wf.walk_spec root
  refine ⟨wf, fun file member => ?_, ?_, ?_⟩
  · obtain ⟨met, walked, inside, -⟩ := mem_ofRoot.mp member
    exact ((walk _ met walked).1 file inside).2
  · unfold ofRoot
    cases walked : d.walk (fun _ => true) root with
    | error fault => exact List.nodup_nil
    | ok met =>
      have sorted := (List.mergeSort_perm
        ((met.filterMap Met.file?).filter (wanted extensions ignores))
        fun a b => a.path.le b.path).map (·.place)
      exact sorted.nodup_iff.mpr ((walk _ met walked).2.sublist (List.filter_sublist.map _))
  · unfold ofRoot
    cases d.walk (fun _ => true) root with
    | error fault => exact List.Pairwise.nil
    | ok met =>
      exact List.pairwise_mergeSort (fun a b c => Path.sorts_le.trans a.path b.path c.path)
        (fun a b => Path.sorts_le.total a.path b.path) _

/-- A scan that passes nothing over met no directory that cannot be listed. -/
theorem isRefused_eq_false_of_skipped {root : Path} {extensions : List Text} {ignores : IgnoreSet}
    {met : List Met} (walked : d.walk (fun _ => true) root = .ok met)
    (nothing : (ofRoot d root extensions ignores).skipped = 0) :
    ∀ m ∈ met, m.isRefused = false := by
  rw [ofRoot, walked] at nothing
  simpa [List.countP_eq_zero] using nothing

theorem mem_of_findModule {root : Path} {name : Text} {file : FileRef}
    (found : findModule d root name = .ok file) :
    ∃ met, d.walk isSearched root = .ok met ∧ file ∈ met.filterMap Met.file? := by
  unfold findModule at found
  simp only at found
  split at found
  · next first chosen =>
    obtain rfl := Except.ok.inj found
    split at chosen
    · split at chosen
      · next met walked => exact ⟨met, walked, List.mem_of_find?_eq_some chosen⟩
      · cases chosen
    · cases chosen
  · cases found

/-- The module of keys among what a search of a root met. -/
def moduleAmong? (root : Path) (name : Text) (met : List Met) : Option FileRef :=
  if isSearched (root.fileName?.getD root) then
    (met.filterMap Met.file?).find? fun file => file.path.fileName? = some name
  else none

theorem findModule_of_walk {root : Path} {name : Text} {met : List Met} {file : FileRef}
    (walked : d.walk isSearched root = .ok met) (named : moduleAmong? root name met = some file) :
    findModule d root name = .ok file := by
  rw [moduleAmong?] at named
  rw [findModule, walked]
  simp only [named]

theorem toOption_findModule {root : Path} {met : List Met} (walked : d.walk isSearched root = .ok met)
    (name : Text) : (findModule d root name).toOption = moduleAmong? root name met := by
  rw [findModule, walked, moduleAmong?]
  simp only
  split
  · next file found => rw [found, Except.toOption]
  · next missing => rw [missing, Except.toOption]

end Scan

namespace Injection

variable {i : Injection} {keys : KeyMap} {d : Disk} {strategy : Strategy} {scan : Scan}

/-- The module of keys is ignored by either strategy. -/
theorem protectedPath_of_strategy {protectedPath : Option Path} {file : FileRef}
    (chosen : i.strategy keys d = .ok (strategy, protectedPath))
    (found : Scan.findModule d i.root i.identifierModule = .ok file) :
    protectedPath = some file.path := by
  unfold Injection.strategy at chosen
  rw [found] at chosen
  cases mode : i.mode with
  | comment =>
    simp only [mode, Except.ok.injEq, Prod.mk.injEq] at chosen
    exact chosen.2.symm
  | identifierReplacement =>
    simp only [mode, Except.map, Except.ok.injEq, Prod.mk.injEq] at chosen
    exact chosen.2.symm

theorem mem_paths_of_ignoreSet {path : Path} {ignores : IgnoreSet}
    (set : i.ignoreSet (some path) = .ok ignores) : path ∈ ignores.paths := by
  unfold ignoreSet at set
  cases entries : IgnoreSet.ofEntries i.root i.ignores with
  | error failure => simp [entries, Except.map] at set
  | ok listed =>
    simp only [entries, Except.map, Except.ok.injEq] at set
    simp [← set, IgnoreSet.addPath]

/-- What comes before the work on files: the strategy is chosen, then what to ignore, then the files
below the root are listed. -/
theorem steps_of_prepare (prepared : i.prepare keys d = .ok (strategy, scan)) :
    ∃ protectedPath ignores, i.strategy keys d = .ok (strategy, protectedPath) ∧
      i.ignoreSet protectedPath = .ok ignores ∧
      scan = Scan.ofRoot d i.root i.extensions ignores := by
  unfold prepare at prepared
  cases chosen : i.strategy keys d with
  | error failure => simp [chosen, Bind.bind, Except.bind] at prepared
  | ok pair =>
    obtain ⟨strategy', protectedPath⟩ := pair
    cases set : i.ignoreSet protectedPath with
    | error failure => simp [chosen, set, Bind.bind, Except.bind] at prepared
    | ok ignores =>
      simp only [chosen, set, Bind.bind, Except.bind, Pure.pure, Except.pure, Except.ok.injEq,
        Prod.mk.injEq] at prepared
      obtain ⟨rfl, rfl⟩ := prepared
      exact ⟨protectedPath, ignores, rfl, set, rfl⟩

section Evaluate

variable {met : (Text → Bool) → List Met} {files : List FileRef}

/-- What a run works with, from what walks of its root meet, when that is in the order of paths. Other
than the sort, all of this can be evaluated. -/
theorem prepare_of_walk {protectedPath : Option Path}
    (walked : ∀ enter, d.walk enter i.root = .ok (met enter))
    (chosen : i.strategy keys d = .ok (strategy, protectedPath))
    (wanted : (i.ignoreSet protectedPath).map (fun ignores =>
      ((met fun _ => true).filterMap Met.file?).filter (Scan.wanted i.extensions ignores)) = .ok files)
    (sorted : files.Pairwise fun a b => a.path.le b.path = true) :
    i.prepare keys d =
      .ok (strategy, { files, skipped := (met fun _ => true).countP Met.isRefused }) := by
  cases set : i.ignoreSet protectedPath with
  | error failure =>
    rw [set] at wanted
    cases wanted
  | ok ignores =>
    rw [set] at wanted
    obtain rfl := Except.ok.inj wanted
    have scanned : Scan.ofRoot d i.root i.extensions ignores =
        { files := ((met fun _ => true).filterMap Met.file?).filter (Scan.wanted i.extensions ignores)
          skipped := (met fun _ => true).countP Met.isRefused } := by
      rw [Scan.ofRoot, walked]
      simp only [List.mergeSort_of_pairwise sorted]
    simp only [prepare, chosen, set, Bind.bind, Except.bind, Pure.pure, Except.pure, scanned]

theorem prepare_gloss (mode : i.mode = .comment)
    (walked : ∀ enter, d.walk enter i.root = .ok (met enter))
    (wanted : (i.ignoreSet ((Scan.moduleAmong? i.root i.identifierModule
        (met Scan.isSearched)).map (·.path))).map (fun ignores =>
      ((met fun _ => true).filterMap Met.file?).filter (Scan.wanted i.extensions ignores)) = .ok files)
    (sorted : files.Pairwise fun a b => a.path.le b.path = true) :
    i.prepare keys d =
      .ok (.gloss keys, { files, skipped := (met fun _ => true).countP Met.isRefused }) := by
  refine prepare_of_walk walked ?_ wanted sorted
  rw [← Scan.toOption_findModule (walked Scan.isSearched), Injection.strategy, mode]

end Evaluate

/-- What a run works with: the files below its root that are not ignored; the module of keys is
ignored if there is one. -/
theorem prepare_eq_ok (prepared : i.prepare keys d = .ok (strategy, scan)) :
    ∃ ignores, scan = Scan.ofRoot d i.root i.extensions ignores ∧
      ∀ file, Scan.findModule d i.root i.identifierModule = .ok file → file.path ∈ ignores.paths := by
  obtain ⟨protectedPath, ignores, chosen, set, listed⟩ := steps_of_prepare prepared
  refine ⟨ignores, listed, fun file found => ?_⟩
  rw [protectedPath_of_strategy chosen found] at set
  exact mem_paths_of_ignoreSet set

theorem lists_of_prepare (wf : d.WellFormed) (prepared : i.prepare keys d = .ok (strategy, scan)) :
    Scan.Lists d scan.files := by
  obtain ⟨ignores, rfl, -⟩ := prepare_eq_ok prepared
  exact Scan.lists_ofRoot wf i.root i.extensions ignores

theorem startsWith_self (path : Path) : path.startsWith path = true := by
  simp [Path.startsWith]

/-- The module of keys is a file, and none that the run works on. -/
theorem module_not_listed {file : FileRef} (wf : d.WellFormed)
    (prepared : i.prepare keys d = .ok (strategy, scan))
    (found : Scan.findModule d i.root i.identifierModule = .ok file) :
    (∃ content, d.look file.place = some (.file content)) ∧
      ∀ other ∈ scan.files, other.place ≠ file.place := by
  obtain ⟨ignores, rfl, protects⟩ := prepare_eq_ok prepared
  obtain ⟨pathAt, walk⟩ := wf.walk_spec i.root
  obtain ⟨searched, walked, member⟩ := Scan.mem_of_findModule found
  obtain ⟨spelled, seen⟩ := (walk _ searched walked).1 file member
  refine ⟨seen, fun other scanned same => ?_⟩
  obtain ⟨all, walkedAll, inside, wanted⟩ := Scan.mem_ofRoot.mp scanned
  have samePath : other.path = file.path := by
    rw [((walk _ all walkedAll).1 other inside).1, spelled, same]
  -- A file at the place of the module has the module's path, and that is ignored.
  have ignored : ignores.contains other.path = true := by
    rw [IgnoreSet.contains, Bool.or_eq_true]
    refine .inl (List.any_eq_true.mpr ⟨file.path, protects file found, ?_⟩)
    rw [samePath, startsWith_self]
  simp [Scan.wanted, ignored] at wanted

end Injection

end KeyGloss
