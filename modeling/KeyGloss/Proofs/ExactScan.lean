import Mathlib.Data.List.Induction
import Mathlib.Data.List.Infix
import KeyGloss.Proofs.ImportSpecifier
import KeyGloss.Proofs.ScannedFiles

/-!
# What a run looks at

The files of a run, told by the tree and the request alone: every regular file below the root counts, unless
its extension is not asked for, it is the module of keys, an entry of the request ignores it, or a directory
on the way to it cannot be listed. What a path below the root is spelled like is in `below?_foldl_join`, what
a set of entries ignores in `contains_ofEntries`, and that no other file is lost with the module of keys in
`startsWith_foldl_join`. Files in a directory that cannot be listed are lost (`prepare_misses_closed`); what
a pattern matches is taken from `Glob` and not stated anew.
-/

namespace KeyGloss

/-! ## Paths below a root -/

namespace Path

variable {root : Path} {names : List Text}

/-- The names below a root are spelled behind it, one after the other. -/
theorem located_foldl_join (root : Path) (named : names ≠ [])
    (valid : ∀ name ∈ names, IsEntryName name) :
    ∃ (front : Text) (before places : List Located),
      names.foldl join root = front ++ Text.join "/" names ∧
      located (names.foldl join root) = before ++ places ∧ before.length = root.steps.length ∧
      places.head?.map (·.start) = some front.length ∧
      places.getLast?.map (·.stop) = some (names.foldl join root).length := by
  induction names using List.reverseRecOn with
  | nil => exact absurd rfl named
  | append_singleton names name ih =>
    obtain ⟨notEmpty, notHere, notUp, plain⟩ := valid name (by simp)
    have stands (first : Bool) := pieceStep?_eq_entry first notEmpty notHere notUp
    rw [List.foldl_append, List.foldl_cons, List.foldl_nil]
    by_cases first : names = []
    · subst first
      obtain ⟨u, opens, spelled, same⟩ := join_eq_append root plain
      refine ⟨u, located u, [⟨.entry name, u.length, u.length + name.length⟩], ?_, ?_, ?_, ?_, ?_⟩
      · simpa [Text.join] using spelled
      · rw [List.foldl_nil, spelled, located_append opens plain (stands _)]
      · rw [← same, steps, List.length_map]
      · rfl
      · simp [spelled]
    · have earlier : ∀ n ∈ names, IsEntryName n :=
        fun n inside => valid n (List.mem_append_left _ inside)
      obtain ⟨front, before, places, spelled, split, length, start, stop⟩ := ih first earlier
      -- The path so far ends in a name, so a separator comes next.
      obtain ⟨others, last, rfl⟩ : ∃ others last, names = others ++ [last] :=
        ⟨_, _, (List.dropLast_concat_getLast first).symm⟩
      obtain ⟨lastNamed, -, -, lastPlain⟩ := earlier last (by simp)
      obtain ⟨v, -, ends, -⟩ := join_eq_append (others.foldl join root) lastPlain
      generalize reached : (others ++ [last]).foldl join root = p at *
      rw [List.foldl_append, List.foldl_cons, List.foldl_nil] at reached
      have open_ : ¬ (p.isEmpty || p.getLast? = some '/') = true := by
        rw [← reached, ends]
        obtain ⟨c, rest, rfl⟩ : ∃ rest c, last = rest ++ [c] :=
          ⟨_, _, (List.dropLast_concat_getLast lastNamed).symm⟩
        have other : rest ≠ '/' := fun same => lastPlain (by simp [same])
        simp [← List.append_assoc, other]
      have someText : p ≠ [] := by
        rintro rfl
        simp at open_
      have whole : p.join name = p ++ ['/'] ++ name := by
        rw [join, isAbsolute_eq_false plain, if_neg (by simp), if_neg open_]
        simp
      have places' : located (p.join name) =
          before ++ (places ++ [⟨.entry name, p.length + 1, p.length + 1 + name.length⟩]) := by
        rw [whole, located_append (.inr ⟨p, rfl⟩) plain (stands _), located_separator someText, split]
        simp
      refine ⟨front, before, _, ?_, places', length, ?_, ?_⟩
      · rw [whole, spelled, Text.join_append _ first (by simp)]
        simp [Text.join]
      · cases places with
        | nil => cases start
        | cons place places => exact start
      · rw [List.getLast?_concat, Option.map_some, whole]
        simp
        omega

/-- What is left of a path below the root: the names, with separators between them. -/
theorem below?_foldl_join (root : Path) (named : names ≠ [])
    (valid : ∀ name ∈ names, IsEntryName name) :
    (names.foldl join root).below? root = some (Text.join "/" names) := by
  obtain ⟨front, before, places, spelled_, split, length, start, stop⟩ :=
    located_foldl_join root named valid
  have starts : startsWith (names.foldl join root) root = true := by
    rw [startsWith, ImportSpecifier.steps_foldl_join _ valid]
    simp
  obtain ⟨head, first, start⟩ := Option.map_eq_some_iff.mp start
  obtain ⟨tail, last, stop⟩ := Option.map_eq_some_iff.mp stop
  rw [below?, if_pos starts, split, ← length, List.drop_left, spelled]
  simp only [first, last, start, stop, List.take_length]
  rw [spelled_, List.drop_left]

/-- Below one root, a path starts with another one exactly if its names do. -/
theorem startsWith_foldl_join {others : List Text}
    (valid : ∀ name ∈ names, IsEntryName name)
    (valid' : ∀ name ∈ others, IsEntryName name) :
    startsWith (names.foldl join root) (others.foldl join root) = true ↔ others <+: names := by
  rw [startsWith, List.isPrefixOf_iff_prefix, ImportSpecifier.steps_foldl_join _ valid,
    ImportSpecifier.steps_foldl_join _ valid', List.prefix_append_right_inj]
  exact List.prefix_map_iff_of_injective fun a b same => Step.entry.inj same

/-- The extension of a name is what follows its last dot, unless nothing stands before the dot. -/
theorem splitName_snd_eq_some {name extension : Text} :
    (splitName name).2 = some extension ↔
      ∃ stem, stem ≠ [] ∧ '.' ∉ extension ∧ name = stem ++ '.' :: extension := by
  refine ⟨fun found => ?_, fun ⟨stem, front, plain, spelled⟩ => ?_⟩
  · have plain : '.' ∉ extension := by
      unfold splitName at found
      simp only at found
      split at found
      · cases found
      · obtain rfl := Option.some.inj found
        intro inside
        have other := List.mem_takeWhile_imp (List.mem_reverse.mp inside)
        simp at other
    obtain ⟨front, spelled⟩ := (splitName_eq_some plain).mp (Prod.ext rfl found)
    exact ⟨_, front, plain, spelled⟩
  · rw [spelled, splitName_append front plain]

end Path

namespace Scan

/-- The extensions that are asked for, by the name that a file has. -/
theorem hasExtension_iff {extensions : List Text} {path : Path} {name : Text}
    (named : path.fileName? = some name) :
    hasExtension extensions path = true ↔ ∃ allowed ∈ extensions, ∃ stem, stem ≠ [] ∧
      '.' ∉ Text.dropLeading '.' allowed ∧ name = stem ++ '.' :: Text.dropLeading '.' allowed := by
  have extension : path.extension? = (Path.splitName name).2 := by
    rw [Path.extension?, named, Option.bind_some]
  unfold hasExtension
  rw [extension]
  cases found : (Path.splitName name).2 with
  | none =>
    simp only [Bool.false_eq_true, false_iff]
    rintro ⟨allowed, -, split⟩
    rw [← Path.splitName_snd_eq_some, found] at split
    cases split
  | some extension =>
    rw [List.any_eq_true]
    refine exists_congr fun allowed => and_congr_right fun _ => ?_
    rw [← Path.splitName_snd_eq_some, found, decide_eq_true_eq, Option.some.injEq, eq_comm]

end Scan

/-! ## Ignored paths -/

namespace IgnoreSet

variable {base path : Path} {set after : IgnoreSet} {entries : List Text} {entry : Text}

/-- Whether an entry ignores a path: as a path from the base that leads to it or above it, or as a pattern
of the whole path or of what is left below the base. -/
def Hits (base : Path) (entry : Text) (path : Path) : Prop :=
  isPattern entry = false ∧ path.startsWith (base.join entry) = true ∨
    isPattern entry = true ∧ ∃ glob, Glob.parse entry = .ok glob ∧
      (glob.isMatch path = true ∨ ∃ rest, path.below? base = some rest ∧ glob.isMatch rest = true)

theorem contains_addPath (added : Path) :
    (set.addPath added).contains path = true ↔
      set.contains path = true ∨ path.startsWith added = true := by
  simp only [contains, addPath, List.any_append, List.any_cons, List.any_nil, Bool.or_false,
    Bool.or_eq_true]
  exact or_right_comm

/-- The step lemma: one entry more ignores what it hits. -/
theorem contains_addEntry (path : Path) (added : set.addEntry entry = .ok after) :
    after.base = set.base ∧
      (after.contains path = true ↔ set.contains path = true ∨ Hits set.base entry path) := by
  unfold addEntry at added
  split at added
  · next pattern =>
    split at added
    · next glob parsed =>
      obtain rfl := Except.ok.inj added
      refine ⟨rfl, ?_⟩
      have left : ((path.below? set.base).map glob.isMatch).getD false = true ↔
          ∃ rest, path.below? set.base = some rest ∧ glob.isMatch rest = true := by
        cases path.below? set.base <;> simp
      have hits : Hits set.base entry path ↔
          glob.isMatch path = true ∨
            ((path.below? set.base).map glob.isMatch).getD false = true := by
        simp [Hits, pattern, parsed, left]
      simp only [contains, List.any_append, List.any_cons, List.any_nil, Bool.or_false,
        Bool.or_eq_true, hits, or_assoc]
    · cases added
  · next literal =>
    obtain rfl := Except.ok.inj added
    refine ⟨rfl, ?_⟩
    have hits : Hits set.base entry path ↔ path.startsWith (set.base.join entry) = true := by
      simp [Hits, literal]
    rw [hits]
    exact contains_addPath (set.base.join entry)

/-- The run lemma: the set of some entries ignores what any of them hits. -/
theorem contains_foldlM (added : entries.foldlM addEntry set = .ok after) :
    after.contains path = true ↔
      set.contains path = true ∨ ∃ entry ∈ entries, Hits set.base entry path := by
  induction entries generalizing set with
  | nil =>
    obtain rfl := Except.ok.inj added
    simp
  | cons entry entries ih =>
    rw [List.foldlM_cons] at added
    cases first : set.addEntry entry with
    | error failure => simp [first, Bind.bind, Except.bind] at added
    | ok next =>
      simp only [first, Bind.bind, Except.bind] at added
      obtain ⟨same, here⟩ := contains_addEntry path first
      rw [ih added, here, same, or_assoc, List.exists_mem_cons_iff]

theorem contains_ofEntries (added : ofEntries base entries = .ok after) :
    after.contains path = true ↔ ∃ entry ∈ entries, Hits base entry path := by
  rw [contains_foldlM added]
  simp [contains]

end IgnoreSet

/-! ## Files below a root -/

namespace Disk

variable {d : Disk} {root : Path} {names names' : Place} {file file' : FileRef}

/-- A regular file below the directory that a root leads to: the names lead to it from there, and its path is
the root with the names behind it. -/
structure FileBelow (d : Disk) (root : Path) (names : Place) (file : FileRef) : Prop where
  path : file.path = names.foldl Path.join root
  regular : ∃ base entries content, d.find true root = .ok (base, some (.directory entries)) ∧
    file.place = base ++ names ∧ d.look file.place = some (.file content)

theorem isDirectory_iff :
    d.isDirectory root = true ↔
      ∃ base entries, d.find true root = .ok (base, some (.directory entries)) := by
  unfold isDirectory node
  cases d.find true root with
  | error fault => simp
  | ok found =>
    obtain ⟨base, _ | node⟩ := found
    · simp
    · cases node <;> simp

theorem FileBelow.valid (below : d.FileBelow root names file) (wf : d.WellFormed)
    : ∀ name ∈ names, IsEntryName name := by
  obtain ⟨base, entries, content, -, placed, seen⟩ := below.regular
  intro name inside
  exact wf.names_of_look seen name (placed ▸ List.mem_append_right _ inside)

/-- The directory itself is no file. -/
theorem FileBelow.names_ne_nil (below : d.FileBelow root names file) : names ≠ [] := by
  rintro rfl
  obtain ⟨base, entries, content, leads, placed, seen⟩ := below.regular
  rw [placed, List.append_nil, look, ← Node.at?_eq_file, at?_of_find leads] at seen
  cases seen

/-- The system lists every directory on the way from a root down to names below it. -/
def ListsWay (d : Disk) (root : Path) (names : Place) : Prop :=
  ∃ base entries, d.find true root = .ok (base, some (.directory entries)) ∧
    Node.ListsDown d.lists root base names

/-- The walk from a root that leads to a directory finds files below the root, namely those to which
directories lead that it enters and that can be listed. -/
theorem mem_walk_iff {enter : Text → Bool} {met : List Met} (wf : d.WellFormed)
    (directory : d.isDirectory root = true) (walked : d.walk enter root = .ok met) :
    file ∈ met.filterMap Met.file? ↔ ∃ names, d.FileBelow root names file ∧
      (∀ name ∈ names, enter name = true) ∧ d.ListsWay root names := by
  obtain ⟨base, entries, leads⟩ := isDirectory_iff.mp directory
  have found := at?_of_find leads
  have looks (names : Place) : d.look (base ++ names) = (Node.directory entries).look names := by
    rw [look, Node.look, Node.at?_append, found]
    rfl
  obtain rfl := Except.ok.inj ((walk_of_directory leads enter).symm.trans walked)
  refine (wf.tree.of_at? found).2.mem_files_iff.trans ⟨?_, ?_⟩
  · rintro ⟨names, content, rfl, seen, entered, down⟩
    exact ⟨names, ⟨rfl, base, entries, content, leads, rfl, (looks names).trans seen⟩, entered,
      base, entries, leads, down⟩
  · rintro ⟨names, ⟨spelled, base', entries', content, leads', placed, seen⟩, entered,
      base'', entries'', leads'', down⟩
    obtain ⟨rfl, -⟩ := Prod.mk.inj (Except.ok.inj (leads.symm.trans leads'))
    obtain ⟨rfl, -⟩ := Prod.mk.inj (Except.ok.inj (leads.symm.trans leads''))
    refine ⟨names, content, ?_, ?_, entered, down⟩
    · rw [← spelled, ← placed]
    · rw [← looks, ← placed, seen]

/-- Where a walk meets no directory that cannot be listed, every way to a file can be listed. -/
theorem FileBelow.listsWay {met : List Met} (below : d.FileBelow root names file)
    (walked : d.walk (fun _ => true) root = .ok met) (open_ : ∀ m ∈ met, m.isRefused = false) :
    d.ListsWay root names := by
  obtain ⟨-, base, entries, content, leads, placed, seen⟩ := below
  obtain rfl := Except.ok.inj ((walk_of_directory leads _).symm.trans walked)
  rw [placed, look, Node.look, Node.at?_append, at?_of_find leads, Option.bind_some] at seen
  exact ⟨base, entries, leads, Node.listsDown_of_walk seen open_⟩

/-- No file lies below another one, so the path of one starts with that of another only if they are the
same. -/
theorem FileBelow.startsWith_iff (below : d.FileBelow root names file)
    (below' : d.FileBelow root names' file') (wf : d.WellFormed) :
    file.path.startsWith file'.path = true ↔ file.place = file'.place := by
  have valid := below.valid wf
  have valid' := below'.valid wf
  obtain ⟨spelled, base, entries, content, leads, placed, seen⟩ := below
  obtain ⟨spelled', base', entries', content', leads', placed', seen'⟩ := below'
  obtain ⟨rfl, -⟩ := Prod.mk.inj (Except.ok.inj (leads.symm.trans leads'))
  rw [spelled, spelled', Path.startsWith_foldl_join valid valid', placed, placed',
    List.append_cancel_left_eq]
  refine ⟨fun starts => ?_, fun same => same ▸ List.prefix_refl _⟩
  obtain ⟨more, rfl⟩ := starts
  by_contra further
  rw [placed, ← List.append_assoc] at seen
  have through := Node.look_directory_of_append seen fun nothing => further (by simp [nothing])
  rw [← placed', show d.tree.look file'.place = _ from seen'] at through
  cases through

end Disk

/-! ## The files of a run -/

namespace Injection

variable {i : Injection} {keys : KeyMap} {d : Disk} {strategy : Strategy}

/-- What a run protects is the module of keys, if there is one. -/
theorem protectedPath_eq {protectedPath : Option Path}
    (chosen : i.strategy keys d = .ok (strategy, protectedPath)) :
    protectedPath = (Scan.findModule d i.root i.identifierModule).toOption.map (·.path) := by
  cases found : Scan.findModule d i.root i.identifierModule with
  | ok file => exact protectedPath_of_strategy chosen found
  | error failure =>
    unfold Injection.strategy at chosen
    rw [found] at chosen
    cases mode : i.mode with
    | comment =>
      simp only [mode, Except.ok.injEq, Prod.mk.injEq] at chosen
      exact chosen.2.symm
    | identifierReplacement => simp [mode, Except.map] at chosen

/-- A run ignores what an entry hits, and the module of keys. -/
theorem contains_ignoreSet {protectedPath : Option Path} {ignores : IgnoreSet} (path : Path)
    (set : i.ignoreSet protectedPath = .ok ignores) :
    ignores.contains path = true ↔ (∃ entry ∈ i.ignores, IgnoreSet.Hits i.root entry path) ∨
      ∃ kept, protectedPath = some kept ∧ path.startsWith kept = true := by
  unfold ignoreSet at set
  cases entries : IgnoreSet.ofEntries i.root i.ignores with
  | error failure => simp [entries, Except.map] at set
  | ok listed =>
    rw [← IgnoreSet.contains_ofEntries entries]
    simp only [entries, Except.map, Except.ok.injEq] at set
    rw [← set]
    cases protectedPath with
    | none => simp
    | some kept => simp [IgnoreSet.contains_addPath]

/-- An entry spares a file: as a path it leads neither to the file nor above it, and as a pattern it matches
neither the path of the file nor the names below the root. -/
def Spares (i : Injection) (entry : Text) (names : Place) (path : Path) : Prop :=
  (IgnoreSet.isPattern entry = false → ¬ (i.root.join entry).steps <+: path.steps) ∧
    (IgnoreSet.isPattern entry = true → ∀ glob, Glob.parse entry = .ok glob →
      glob.isMatch path = false ∧ glob.isMatch (Text.join "/" names) = false)

theorem spares_iff {names : Place} {file : FileRef} (entry : Text) (below : d.FileBelow i.root names file)
    (wf : d.WellFormed) :
    i.Spares entry names file.path ↔ ¬ IgnoreSet.Hits i.root entry file.path := by
  have left : file.path.below? i.root = some (Text.join "/" names) := by
    rw [below.path]
    exact Path.below?_foldl_join i.root below.names_ne_nil (below.valid wf)
  unfold Spares IgnoreSet.Hits
  rw [Path.startsWith, List.isPrefixOf_iff_prefix, left]
  cases IgnoreSet.isPattern entry with
  | false => simp
  | true => simp [not_or]

/-- The name of a file below a root is the last one on the way to it. -/
theorem hasExtension_iff_getLast? {extensions : List Text} {names : Place} {file : FileRef}
    (below : d.FileBelow i.root names file) (wf : d.WellFormed) :
    Scan.hasExtension extensions file.path = true ↔ ∃ allowed ∈ extensions, ∃ stem, stem ≠ [] ∧
      '.' ∉ Text.dropLeading '.' allowed ∧
      names.getLast? = some (stem ++ '.' :: Text.dropLeading '.' allowed) := by
  have valid := below.valid wf
  obtain ⟨folders, name, rfl⟩ : ∃ folders name, names = folders ++ [name] :=
    ⟨_, _, (List.dropLast_concat_getLast below.names_ne_nil).symm⟩
  have named : file.path.fileName? = some name := by
    rw [Path.fileName?, below.path, ImportSpecifier.steps_foldl_join _ valid, List.map_append,
      List.map_singleton, ← List.append_assoc, List.getLast?_concat]
  rw [Scan.hasExtension_iff named, List.getLast?_concat]
  simp only [Option.some.injEq]

/-- The path that a run protects leads to one file below the root, the module of keys. -/
theorem startsWith_protected_iff {protectedPath : Option Path} {names : Place} {file : FileRef}
    (chosen : i.strategy keys d = .ok (strategy, protectedPath)) (below : d.FileBelow i.root names file)
    (wf : d.WellFormed) (directory : d.isDirectory i.root = true) :
    (∃ kept, protectedPath = some kept ∧ file.path.startsWith kept = true) ↔
      ∃ module, Scan.findModule d i.root i.identifierModule = .ok module ∧
        file.place = module.place := by
  rw [protectedPath_eq chosen]
  cases search : Scan.findModule d i.root i.identifierModule with
  | error failure => simp [Except.toOption]
  | ok module =>
    obtain ⟨searched, walked, inside⟩ := Scan.mem_of_findModule search
    obtain ⟨names', below', -⟩ := (Disk.mem_walk_iff wf directory walked).mp inside
    simp [Except.toOption, below.startsWith_iff below' wf]

/-- For a file below the root, being wanted is what the request says. -/
theorem wanted_iff {protectedPath : Option Path} {ignores : IgnoreSet} {names : Place} {file : FileRef}
    (chosen : i.strategy keys d = .ok (strategy, protectedPath))
    (set : i.ignoreSet protectedPath = .ok ignores) (below : d.FileBelow i.root names file)
    (wf : d.WellFormed) (directory : d.isDirectory i.root = true) :
    Scan.wanted i.extensions ignores file = true ↔
      (∃ allowed ∈ i.extensions, ∃ stem, stem ≠ [] ∧ '.' ∉ Text.dropLeading '.' allowed ∧
        names.getLast? = some (stem ++ '.' :: Text.dropLeading '.' allowed)) ∧
      (∀ module, Scan.findModule d i.root i.identifierModule = .ok module →
        file.place ≠ module.place) ∧
      ∀ entry ∈ i.ignores, i.Spares entry names file.path := by
  have ignored := contains_ignoreSet file.path set
  rw [startsWith_protected_iff chosen below wf directory] at ignored
  rw [Scan.wanted, Bool.and_eq_true, Bool.not_eq_true', ← Bool.not_eq_true, ignored, not_or,
    hasExtension_iff_getLast? below wf, and_comm]
  simp only [spares_iff _ below wf, not_exists, not_and, and_congr_right_iff]
  exact fun _ => and_comm

/-- The scan is exact. A run whose root is a directory works, once each and in the order of their paths step
by step, on exactly these files: the regular files below the root, at the end of directories that can all be
listed, with an extension that is asked for, but not the module of keys and none that an entry of the request
ignores. When the scan passed nothing over, all directories on the way to files can be listed. -/
theorem prepare_scans_exactly (i : Injection) (keys : KeyMap) (d : Disk) (strategy : Strategy)
    (scan : Scan) (wf : d.WellFormed) (directory : d.isDirectory i.root = true)
    (prepared : i.prepare keys d = .ok (strategy, scan)) :
    scan.files.Nodup ∧
      (scan.files.Pairwise fun a b => a.path.le b.path = true ∧ a.path.steps ≠ b.path.steps) ∧
      (∀ file, file ∈ scan.files ↔ ∃ names, d.FileBelow i.root names file ∧
        d.ListsWay i.root names ∧
        (∃ allowed ∈ i.extensions, ∃ stem, stem ≠ [] ∧ '.' ∉ Text.dropLeading '.' allowed ∧
          names.getLast? = some (stem ++ '.' :: Text.dropLeading '.' allowed)) ∧
        (∀ module, Scan.findModule d i.root i.identifierModule = .ok module →
          file.place ≠ module.place) ∧
        ∀ entry ∈ i.ignores, i.Spares entry names file.path) ∧
      (scan.skipped = 0 → ∀ names file, d.FileBelow i.root names file → d.ListsWay i.root names) := by
  have lists := lists_of_prepare wf prepared
  obtain ⟨protectedPath, ignores, chosen, set, rfl⟩ := steps_of_prepare prepared
  obtain ⟨base, entries, leads⟩ := Disk.isDirectory_iff.mp directory
  have walked := Disk.walk_of_directory leads fun _ => true
  have below {file : FileRef} (member : file ∈ (Scan.ofRoot d i.root i.extensions ignores).files) :
      ∃ names, d.FileBelow i.root names file ∧ d.ListsWay i.root names ∧
        Scan.wanted i.extensions ignores file = true := by
    obtain ⟨met, walked, inside, asked⟩ := Scan.mem_ofRoot.mp member
    obtain ⟨names, below, -, way⟩ := (Disk.mem_walk_iff wf directory walked).mp inside
    exact ⟨names, below, way, asked⟩
  refine ⟨lists.nodup, ?_, fun file => ⟨?_, ?_⟩, fun nothing names file below => ?_⟩
  · refine (lists.ordered.and (List.pairwise_map.mp lists.apart)).imp_of_mem ?_
    rintro a b first second ⟨ordered, apart⟩
    obtain ⟨names, first, -⟩ := below first
    obtain ⟨names', second, -⟩ := below second
    refine ⟨ordered, fun same => apart ((first.startsWith_iff second wf).mp ?_)⟩
    rw [Path.startsWith, same]
    simp
  · intro member
    obtain ⟨names, below, way, asked⟩ := below member
    exact ⟨names, below, way, (wanted_iff chosen set below wf directory).mp asked⟩
  · rintro ⟨names, below, way, asked⟩
    refine Scan.mem_ofRoot.mpr ⟨_, walked, ?_, (wanted_iff chosen set below wf directory).mpr asked⟩
    exact (Disk.mem_walk_iff wf directory walked).mpr ⟨names, below, fun _ _ => rfl, way⟩
  · exact below.listsWay walked (Scan.isRefused_eq_false_of_skipped walked nothing)

/-- A folder with a file, a link to it, the module of keys, three folders of one file each, and a folder that
cannot be listed. -/
def mixedTree : Disk :=
  { tree := .directory [("src", .directory [("a.ts", .file .empty),
      ("gen", .directory [("b.ts", .file .empty)]), ("l.ts", .link ("a.ts" : Text)),
      ("lib", .directory [("c.tsx", .file .empty)]), ("lock", .directory [("e.ts", .file .empty)]),
      ("old", .directory [("d.ts", .file .empty)]), ("tKeys.ts", .file .empty)])]
    closed := [["src", "lock"]] }

/-- A run that ignores one of the folders by its path and what is in another one by a pattern. -/
def mixedScan : Injection :=
  { root := ("src" : Text), extensions := ["ts", ".tsx"], ignores := ["old", "gen/*"] }

theorem mixedTree_leads :
    mixedTree.find true mixedScan.root = .ok (["src"], mixedTree.tree.at? ["src"]) :=
  Disk.find_of_placeOf (by decide +kernel)

/-- What the run works on. -/
theorem prepare_mixedTree : mixedScan.prepare KeyMap.empty mixedTree = .ok (.gloss KeyMap.empty,
    { files := [⟨("src/a.ts" : Text), ["src", "a.ts"]⟩,
        ⟨("src/lib/c.tsx" : Text), ["src", "lib", "c.tsx"]⟩], skipped := 1 }) :=
  prepare_gloss rfl (Disk.walk_of_directory mixedTree_leads) (by decide +kernel) (by decide +kernel)

theorem findModule_mixedTree :
    Scan.findModule mixedTree mixedScan.root mixedScan.identifierModule =
      .ok ⟨("src/tKeys.ts" : Text), ["src", "tKeys.ts"]⟩ :=
  Scan.findModule_of_walk (Disk.walk_of_directory mixedTree_leads _) (by decide +kernel)

/-- Of the six regular files, the run works on two: the others are the module, one in the ignored folder, one
that the pattern matches below the root, and one in the folder that cannot be listed. -/
theorem prepare_scans_exactly_mixed :
    mixedTree.WellFormed ∧ mixedTree.isDirectory mixedScan.root = true ∧
      mixedScan.prepare KeyMap.empty mixedTree = .ok (.gloss KeyMap.empty,
        { files := [⟨("src/a.ts" : Text), ["src", "a.ts"]⟩,
            ⟨("src/lib/c.tsx" : Text), ["src", "lib", "c.tsx"]⟩], skipped := 1 }) ∧
      (∃ names, mixedTree.FileBelow mixedScan.root names
          ⟨("src/lib/c.tsx" : Text), ["src", "lib", "c.tsx"]⟩ ∧ mixedTree.ListsWay mixedScan.root names ∧
        ∀ entry ∈ mixedScan.ignores, mixedScan.Spares entry names ("src/lib/c.tsx" : Text)) ∧
      ¬ ∀ entry ∈ mixedScan.ignores, mixedScan.Spares entry ["gen", "b.ts"] ("src/gen/b.ts" : Text) := by
  have wf : mixedTree.WellFormed := by decide +kernel
  have directory : mixedTree.isDirectory mixedScan.root = true :=
    Disk.isDirectory_iff.mpr ⟨_, _, mixedTree_leads⟩
  obtain ⟨-, -, exact_, -⟩ := prepare_scans_exactly mixedScan KeyMap.empty mixedTree _ _
    wf directory prepare_mixedTree
  refine ⟨wf, directory, prepare_mixedTree, ?_, ?_⟩
  · obtain ⟨names, below, way, -, -, spared⟩ :=
      (exact_ _).mp (List.mem_cons_of_mem _ List.mem_cons_self)
    exact ⟨names, below, way, spared⟩
  · intro spared
    have below : mixedTree.FileBelow mixedScan.root ["gen", "b.ts"]
        ⟨("src/gen/b.ts" : Text), ["src", "gen", "b.ts"]⟩ :=
      ⟨by decide +kernel, ["src"], _, .empty, mixedTree_leads, rfl, rfl⟩
    have way : mixedTree.ListsWay mixedScan.root ["gen", "b.ts"] := by
      refine ⟨["src"], _, mixedTree_leads, Node.listsDown_cons.mpr ⟨by decide +kernel, ?_⟩⟩
      exact Node.listsDown_cons.mpr ⟨by decide +kernel, Node.listsDown_nil⟩
    have listed := (exact_ _).mpr
      ⟨_, below, way, ⟨"ts", by simp [mixedScan], "b", by decide⟩, ?_, spared⟩
    · simp at listed
    · intro module found
      obtain rfl := Except.ok.inj (findModule_mixedTree.symm.trans found)
      simp

/-- Files in a folder that cannot be listed are passed over: a run that ignores nothing does not work on every
regular file with an extension that is asked for. -/
theorem prepare_misses_closed :
    let i : Injection := { root := ("src" : Text), extensions := ["ts"], ignores := [] }
    ∃ strategy scan, i.prepare KeyMap.empty mixedTree = .ok (strategy, scan) ∧
      ¬ ∀ file, file ∈ scan.files ↔ ∃ names, mixedTree.FileBelow i.root names file ∧
        (∃ allowed ∈ i.extensions, ∃ stem, stem ≠ [] ∧ '.' ∉ Text.dropLeading '.' allowed ∧
          names.getLast? = some (stem ++ '.' :: Text.dropLeading '.' allowed)) ∧
        (∀ module, Scan.findModule mixedTree i.root i.identifierModule = .ok module →
          file.place ≠ module.place) ∧
        ∀ entry ∈ i.ignores, i.Spares entry names file.path := by
  intro i
  have prepared : i.prepare KeyMap.empty mixedTree = .ok (.gloss KeyMap.empty,
      { files := [⟨("src/a.ts" : Text), ["src", "a.ts"]⟩,
          ⟨("src/gen/b.ts" : Text), ["src", "gen", "b.ts"]⟩,
          ⟨("src/old/d.ts" : Text), ["src", "old", "d.ts"]⟩], skipped := 1 }) :=
    prepare_gloss (i := i) rfl (Disk.walk_of_directory mixedTree_leads) (by decide +kernel)
      (by decide +kernel)
  refine ⟨_, _, prepared, fun exact_ => ?_⟩
  have below : mixedTree.FileBelow i.root ["lock", "e.ts"]
      ⟨("src/lock/e.ts" : Text), ["src", "lock", "e.ts"]⟩ :=
    ⟨by decide +kernel, ["src"], _, .empty, mixedTree_leads, rfl, rfl⟩
  have listed := (exact_ _).mpr ⟨_, below, ⟨"ts", by simp [i], "e", by decide⟩, ?_, by simp [i]⟩
  · simp at listed
  · intro module found
    obtain rfl := Except.ok.inj (findModule_mixedTree.symm.trans found)
    simp

end Injection

end KeyGloss
