import KeyGloss.Proofs.ImportSpecifier
import KeyGloss.Proofs.Injection.Independence
import KeyGloss.Proofs.Injection.Untouched
import KeyGloss.Proofs.ReferenceLiterals

/-!
# The names of files in diagnostics

A diagnostic names the file it is about by a path that is cut at the root. The report of a literal starts
from the path of the file; all others start from the path that is shown for the file, which is cut already
(`adds_visit`). So they name the file by another path exactly if the path that is shown lies below the
root itself.
-/

namespace KeyGloss

theorem Text.length_replaceChar (old : Char) {new : Text} (single : new.length = 1) (t : Text) :
    (replaceChar old new t).length = t.length := by
  unfold replaceChar
  induction t with
  | nil => rfl
  | cons c t ih =>
    have one : (if c = old then new else [c]).length = 1 := by
      split
      · exact single
      · rfl
    rw [List.flatMap_cons, List.length_append, ih, one, List.length_cons, Nat.add_comm]

namespace Diagnostic

/-- Cutting a path at a root does nothing exactly if the path is not below the root. -/
theorem relativePath?_getD_eq_iff (path : Path) {root : Path} (spelled : root ≠ []) :
    (relativePath? root path).getD path = path ↔ path.startsWith root = false := by
  unfold relativePath?
  cases left : path.below? root with
  | none =>
    have apart : path.startsWith root = false := by
      by_contra below
      simp [Path.below?, below] at left
    simp [apart]
  | some rest =>
    have below : path.startsWith root = true := by
      by_contra apart
      simp [Path.below?, apart] at left
    have shorter := Path.length_below?_lt spelled left
    rw [Option.map_some, Option.getD_some, below]
    simp only [Bool.true_eq_false, iff_false]
    intro same
    rw [← same, Text.length_replaceChar _ rfl] at shorter
    exact Nat.lt_irrefl _ shorter

theorem rule_relativize (root : Path) (diagnostic : Diagnostic) :
    (diagnostic.relativize root).rule = diagnostic.rule := by
  unfold relativize
  cases relativePath? root diagnostic.filePath with
  | none => rfl
  | some relative => cases diagnostic <;> rfl

end Diagnostic

/-- A strategy reports literals only. -/
theorem Strategy.rule_of_apply {strategy : Strategy} {source : Source} {diagnostic : Diagnostic}
    (reported : diagnostic ∈ (strategy.apply source).2.1) : diagnostic.rule = .restrictionMismatch := by
  cases strategy with
  | gloss keys => cases reported
  | reference r =>
    rw [Strategy.apply] at reported
    rcases r.apply_cases source with ⟨failure, -, applied⟩ | ⟨after, outcome, applied, -⟩
    all_goals
      rw [applied] at reported
      obtain ⟨hit, -, rfl⟩ := List.mem_map.mp reported
      rfl

namespace Injection

variable {i : Injection} {keys : KeyMap} {strategy : Strategy} {scan : Scan} {d : Disk}
  {hook : Option Hook} {p : Progress} {file : FileRef} {path : Path} {diagnostic : Diagnostic}

/-- What the diagnostics of a file name it by, before the name is cut at the root. -/
def named (i : Injection) (path : Path) (diagnostic : Diagnostic) : Path :=
  if diagnostic.rule = .restrictionMismatch then path else i.displayPath path

/-- A diagnostic names a file by a path that is cut at the root. -/
def Names (i : Injection) (path : Path) (diagnostic : Diagnostic) : Prop :=
  diagnostic.filePath =
    (Diagnostic.relativePath? i.root (i.named path diagnostic)).getD (i.named path diagnostic)

theorem names_relativize (given : diagnostic.filePath = i.named path diagnostic) :
    i.Names path (diagnostic.relativize i.root) := by
  unfold Names named
  rw [Diagnostic.rule_relativize, Diagnostic.filePath_relativize, given]
  rfl

/-- The diagnostics of a file, whatever reading it gave. -/
theorem names_of_examine {content : Except DiskFault Text}
    (found : diagnostic ∈ (i.examine strategy path content).1) : i.Names path diagnostic := by
  cases readable : Source.of? path content with
  | none =>
    obtain ⟨reason, equal⟩ := examine_of_unreadable i strategy readable
    rw [equal, List.mem_singleton] at found
    rw [found]
    exact names_relativize rfl
  | some source =>
    rw [examine_of_source readable] at found
    obtain ⟨before, reported, rfl⟩ := List.mem_map.mp found
    obtain ⟨text, -, read⟩ := Source.of?_eq_some.mp readable
    obtain ⟨-, -, spelled, -⟩ := Source.lexes_of_read read
    refine names_relativize ?_
    rw [named, if_pos (Strategy.rule_of_apply reported), Strategy.filePath_of_apply reported, spelled]

/-- The change of a file shows its path cut at the root. -/
theorem shown_of_examine {content : Except DiskFault Text} {change : Change} {text : Text}
    (worked : (i.examine strategy path content).2 = .ok (some (change, text))) :
    change.path = path ∧ change.displayPath = i.displayPath path := by
  cases readable : Source.of? path content with
  | none =>
    obtain ⟨reason, equal⟩ := examine_of_unreadable i strategy readable
    rw [equal] at worked
    cases worked
  | some source =>
    rw [examine_of_source readable] at worked
    cases applied : (strategy.apply source).2.2 with
    | error failure => simp [applied, Except.map] at worked
    | ok outcome =>
      simp only [applied, Except.map, Except.ok.injEq, workOf] at worked
      split at worked
      · obtain ⟨rfl, -⟩ := Prod.mk.inj (Option.some.inj worked)
        exact ⟨rfl, rfl⟩
      · cases worked

/-- What the work on a file adds to a run: diagnostics that name the file, and changes that show it. -/
structure Adds (i : Injection) (path : Path) (p after : Progress) : Prop where
  diagnostics : ∃ added, after.diagnostics = p.diagnostics ++ added ∧
    ∀ diagnostic ∈ added, i.Names path diagnostic
  changes : ∃ added, after.changes = p.changes ++ added ∧
    ∀ change ∈ added, change.path = path ∧ change.displayPath = i.displayPath path

theorem Adds.trans {q r : Progress} (first : i.Adds path p q) (second : i.Adds path q r) :
    i.Adds path p r := by
  obtain ⟨⟨reports, reported, names⟩, changes, changed, shows⟩ := first
  obtain ⟨⟨reports', reported', names'⟩, changes', changed', shows'⟩ := second
  refine ⟨⟨reports ++ reports', ?_, ?_⟩, changes ++ changes', ?_, ?_⟩
  · rw [reported', reported, List.append_assoc]
  · exact List.forall_mem_append.mpr ⟨names, names'⟩
  · rw [changed', changed, List.append_assoc]
  · exact List.forall_mem_append.mpr ⟨shows, shows'⟩

theorem adds_diagnostics {reports : List Diagnostic}
    (names : ∀ diagnostic ∈ reports, i.Names path diagnostic) :
    i.Adds path p { p with diagnostics := p.diagnostics ++ reports } :=
  ⟨⟨reports, rfl, names⟩, [], by simp⟩

theorem adds_change (change : Change) (disk : Disk) (shows : change.path = path)
    (shown : change.displayPath = i.displayPath path) :
    i.Adds path p { p with disk, changes := p.changes ++ [change] } :=
  ⟨⟨[], by simp⟩, [change], rfl, by simp [shows, shown]⟩

theorem adds_format {change : Change} {disk : Disk} (shows : change.path = path)
    (shown : change.displayPath = i.displayPath path) :
    i.Adds path p (i.format hook { p with disk } change) := by
  unfold format
  cases hook with
  | none => exact adds_change change _ shows shown
  | some hook =>
    simp only
    split
    · next disk' ran => exact adds_change { change with formatted := true } _ shows shown
    · next disk' failure ran =>
      refine (adds_change change disk' shows shown).trans (adds_diagnostics ?_)
      rw [List.forall_mem_singleton]
      exact names_relativize shown

/-- The step lemma: whatever the work on a file comes to, it adds to the run. -/
theorem adds_visit (i : Injection) (strategy : Strategy) (hook : Option Hook) (p : Progress)
    (file : FileRef) : i.Adds file.path p (i.visit strategy hook p file).1 := by
  have same : i.Adds file.path p p := ⟨⟨[], by simp⟩, [], by simp⟩
  unfold visit
  split
  · exact same
  · cases found : i.examine strategy file.path (p.disk.readFile file) with
    | mk reports result =>
      have reported : i.Adds file.path p { p with diagnostics := p.diagnostics ++ reports } :=
        adds_diagnostics fun diagnostic listed =>
          names_of_examine (by rw [found]; exact listed)
      rcases result with failure | _ | ⟨change, text⟩
      · exact reported
      · exact reported
      obtain ⟨spelled, shown⟩ := shown_of_examine (congrArg Prod.snd found)
      simp only
      split
      · exact reported.trans (adds_change change _ spelled shown)
      · split
        · exact reported
        · exact reported.trans (adds_format spelled shown)

/-- The diagnostics that the work on a file stores, when a run has come to `p`. -/
def stored (i : Injection) (strategy : Strategy) (p : Progress) (file : FileRef) : List Diagnostic :=
  (i.visit strategy i.hook p file).1.diagnostics.drop p.diagnostics.length

theorem diagnostics_visit (i : Injection) (strategy : Strategy) (p : Progress) (file : FileRef) :
    (i.visit strategy i.hook p file).1.diagnostics = p.diagnostics ++ i.stored strategy p file := by
  obtain ⟨added, equal, -⟩ := (adds_visit i strategy i.hook p file).diagnostics
  rw [stored, equal, List.drop_left]

theorem names_of_stored (kept : diagnostic ∈ i.stored strategy p file) :
    i.Names file.path diagnostic := by
  obtain ⟨added, equal, names⟩ := (adds_visit i strategy i.hook p file).diagnostics
  rw [stored, equal, List.drop_left] at kept
  exact names diagnostic kept

/-- The run lemma: the diagnostics of a run are those that were stored for its files, one file after the
other, and its changes show the files. -/
theorem visitAll_stores {files : List FileRef} {after : Progress}
    (worked : i.visitAll strategy i.hook p files = (after, .ok ())) :
    (∃ stores, List.Forall₂ (fun file kept => ∃ q, kept = i.stored strategy q file) files stores ∧
      after.diagnostics = p.diagnostics ++ stores.flatten) ∧
    ∀ change ∈ after.changes, change ∈ p.changes ∨
      ∃ file ∈ files, change.path = file.path ∧ change.displayPath = i.displayPath file.path := by
  induction files generalizing p with
  | nil =>
    obtain ⟨rfl, -⟩ := Prod.mk.inj worked
    exact ⟨⟨[], .nil, by simp⟩, fun change listed => .inl listed⟩
  | cons file files ih =>
    have reports := diagnostics_visit i strategy p file
    obtain ⟨added, changed, shows⟩ := (adds_visit i strategy i.hook p file).changes
    rw [visitAll] at worked
    split at worked
    · next next visited =>
      rw [visited] at reports changed
      obtain ⟨⟨stores, each, all⟩, later⟩ := ih worked
      refine ⟨⟨i.stored strategy p file :: stores, .cons ⟨p, rfl⟩ each, ?_⟩, fun change listed => ?_⟩
      · rw [all, reports, List.flatten_cons, List.append_assoc]
      · rcases later change listed with sooner | ⟨other, member, shown⟩
        · rw [changed, List.mem_append] at sooner
          exact sooner.imp_right fun new => ⟨file, List.mem_cons_self, shows change new⟩
        · exact .inr ⟨other, List.mem_cons_of_mem _ member, shown⟩
    · cases (Prod.mk.inj worked).2

/-- The files of a run lie below its root. -/
theorem startsWith_root (wf : d.WellFormed) (prepared : i.prepare keys d = .ok (strategy, scan))
    (member : file ∈ scan.files) : file.path.startsWith i.root = true := by
  obtain ⟨ignores, rfl, -⟩ := prepare_eq_ok prepared
  obtain ⟨all, listed, inside, -⟩ := Scan.mem_ofRoot.mp member
  rcases d.walk_eq i.root with ⟨base, node, start, walk⟩ | nothing
  · obtain rfl := Except.ok.inj ((walk _).symm.trans listed)
    obtain ⟨content, seen⟩ := (lists_of_prepare wf prepared).seen file member
    obtain ⟨names, -, rfl, -⟩ := (wf.tree.of_at? start).2.mem_files_iff.mp inside
    have valid : ∀ name ∈ names, IsEntryName name := fun name within =>
      wf.names_of_look seen name (List.mem_append_right _ within)
    rw [Path.startsWith, ImportSpecifier.steps_foldl_join i.root valid]
    simp
  · obtain rfl := nothing _ _ listed
    cases inside

theorem root_ne_nil {mode : Mode} {request : Injection} {root : Path}
    (accepted : ofRoot d root mode = .ok request) : root ≠ [] := by
  rintro rfl
  simp [ofRoot, Disk.contains, Disk.node, Disk.find, Except.toBool] at accepted

section Nested

/-- A folder that holds a folder of its own name, and in both a file that cannot be cut into tokens. -/
def nestedDisk : Disk :=
  { tree := .directory [("src", .directory [("a.ts", .file (Text.encode "\x60")),
      ("src", .directory [("a.ts", .file (Text.encode "\x60"))])])] }

/-- A run over the outer folder, from the directory that holds it. -/
def nestedRequest : Injection := { root := ("src" : Text) }

def nestedOuter : FileRef := ⟨("src/a.ts" : Text), ["src", "a.ts"]⟩

def nestedInner : FileRef := ⟨("src/src/a.ts" : Text), ["src", "src", "a.ts"]⟩

theorem nestedDisk_wellFormed : nestedDisk.WellFormed := by decide +kernel

theorem nestedDisk_leads :
    nestedDisk.find true nestedRequest.root = .ok (["src"], nestedDisk.tree.at? ["src"]) :=
  Disk.find_of_placeOf (by decide +kernel)

theorem prepare_nested : nestedRequest.prepare KeyMap.empty nestedDisk =
    .ok (.gloss KeyMap.empty, { files := [nestedOuter, nestedInner] }) :=
  prepare_gloss rfl (Disk.walk_of_directory nestedDisk_leads) (by decide +kernel) (by decide +kernel)

/-- Neither file can be read, and the report of it is the only trace of the work on it. -/
theorem visit_nested (p : Progress) {file : FileRef} (same : p.disk = nestedDisk)
    (listed : file ∈ [nestedOuter, nestedInner]) :
    ∃ reason, nestedRequest.visit (.gloss KeyMap.empty) nestedRequest.hook p file =
      ({ p with diagnostics := p.diagnostics ++
          [(Diagnostic.unreadable (nestedRequest.displayPath file.path) reason).relativize
            ("src" : Text)] }, .ok ()) := by
  obtain ⟨seen, taken, unreadable⟩ :
      nestedDisk.look file.place = some (.file (Text.encode "\x60")) ∧
        Disk.takes file.path = true ∧ Source.of? file.path (.ok ("\x60" : Text)) = none := by
    simp only [List.mem_cons, List.not_mem_nil, or_false] at listed
    rcases listed with rfl | rfl
    · exact ⟨rfl, by decide +kernel, by decide +kernel⟩
    · exact ⟨rfl, by decide +kernel, by decide +kernel⟩
  have read := Disk.readFile_of_text nestedDisk_wellFormed seen taken List.not_mem_nil
  have wf : p.disk.WellFormed := same ▸ nestedDisk_wellFormed
  obtain ⟨reason, examined⟩ :=
    examine_of_unreadable nestedRequest (.gloss KeyMap.empty) unreadable
  refine ⟨reason, ?_⟩
  rw [show nestedRequest.hook = none from rfl, visit_eq rfl wf (same ▸ seen), same, read, examined]
  simp [diskAfter, nestedRequest]

end Nested

/-- How diagnostics name files. The diagnostics of a run are those that it stores for its files, one file
after the other, and its changes show the files by their paths below the root. What is stored for a file,
wherever the run has come to and whatever the file holds then, names it by the path that is shown exactly
if it is the report of a literal or that path does not itself start with the root. -/
theorem stored_names_shown (i : Injection) (keys : KeyMap) (d : Disk) (strategy : Strategy) (scan : Scan)
    (wf : d.WellFormed)
    (accepted : ∃ request, ofRoot d i.root i.mode = .ok request)
    (prepared : i.prepare keys d = .ok (strategy, scan)) :
    (∀ summary, (i.run keys d).2 = .ok summary →
      (∃ stores, List.Forall₂ (fun file kept => ∃ p, kept = i.stored strategy p file) scan.files stores ∧
        summary.diagnostics.Perm stores.flatten) ∧
      ∀ change ∈ summary.changes, ∃ file ∈ scan.files,
        change.path = file.path ∧ change.displayPath = i.displayPath file.path) ∧
    ∀ file ∈ scan.files, ∀ p, ∀ diagnostic ∈ i.stored strategy p file,
      (diagnostic.filePath = i.displayPath file.path ↔
        diagnostic.rule = .restrictionMismatch ∨
          Path.startsWith (i.displayPath file.path) i.root = false) := by
  refine ⟨fun summary ran => ?_, fun file member p diagnostic kept => ?_⟩
  · unfold run at ran
    rw [prepared] at ran
    simp only at ran
    split at ran
    · next after worked =>
      obtain rfl := Except.ok.inj ran
      obtain ⟨⟨stores, each, all⟩, changes⟩ := visitAll_stores worked
      refine ⟨⟨stores, each, ?_⟩, fun change listed => ?_⟩
      · rw [List.nil_append] at all
        rw [← all]
        exact List.mergeSort_perm _ _
      · exact (changes change (List.mem_mergeSort.mp listed)).resolve_left (by simp)
    · cases ran
  · obtain ⟨request, accepted⟩ := accepted
    have cut := Diagnostic.relativePath?_getD_eq_iff (i.displayPath file.path) (root_ne_nil accepted)
    rw [names_of_stored kept, named]
    split
    · next literal =>
      have below := startsWith_root wf prepared member
      simp only [literal, true_or, iff_true]
      rw [displayPath, Diagnostic.relativePath?, Path.below?, if_pos below]
      rfl
    · next other => rw [cut, or_iff_right other]

/-- Of the two files, the outer one is named by the path that is shown for it, and the inner one is not. -/
theorem stored_names_shown_nested :
    nestedDisk.WellFormed ∧
      nestedRequest.prepare KeyMap.empty nestedDisk =
        .ok (.gloss KeyMap.empty, { files := [nestedOuter, nestedInner] }) ∧
      (∃ diagnostic ∈ nestedRequest.stored (.gloss KeyMap.empty) { disk := nestedDisk } nestedOuter,
        diagnostic.filePath = nestedRequest.displayPath nestedOuter.path) ∧
      ∃ diagnostic ∈ nestedRequest.stored (.gloss KeyMap.empty) { disk := nestedDisk } nestedInner,
        diagnostic.filePath ≠ nestedRequest.displayPath nestedInner.path := by
  refine ⟨nestedDisk_wellFormed, prepare_nested, ?_⟩
  have accepted : ∃ request, ofRoot nestedDisk nestedRequest.root nestedRequest.mode = .ok request := by
    obtain ⟨entries, directory⟩ : ∃ entries,
        nestedDisk.node nestedRequest.root = .ok (.directory entries) :=
      ⟨_, by rw [Disk.node, nestedDisk_leads]; rfl⟩
    simp [ofRoot, Disk.contains, Disk.isDirectory, directory, Except.toBool]
  obtain ⟨-, names⟩ := stored_names_shown nestedRequest KeyMap.empty nestedDisk _ _
    nestedDisk_wellFormed accepted prepare_nested
  have kept : ∀ file ∈ [nestedOuter, nestedInner], ∃ diagnostic ∈
      nestedRequest.stored (.gloss KeyMap.empty) { disk := nestedDisk } file,
      diagnostic.rule = .tokenizeError := by
    intro file listed
    obtain ⟨reason, visited⟩ := visit_nested { disk := nestedDisk } rfl listed
    refine ⟨_, by rw [stored, visited]; exact List.mem_singleton.mpr rfl, ?_⟩
    rw [Diagnostic.rule_relativize]
    rfl
  obtain ⟨outer, keptOuter, ruleOuter⟩ := kept nestedOuter (by simp)
  obtain ⟨inner, keptInner, ruleInner⟩ := kept nestedInner (by simp)
  refine ⟨⟨outer, keptOuter, ?_⟩, inner, keptInner, ?_⟩
  · exact (names nestedOuter (by simp) _ outer keptOuter).mpr (.inr (by decide +kernel))
  · rw [ne_eq, names nestedInner (by simp) _ inner keptInner, ruleInner]
    decide +kernel

/-- A run that reports two files, which are shown by two paths, under one path. -/
theorem run_names_two_files_alike :
    nestedRequest.displayPath nestedOuter.path = ("a.ts" : Text) ∧
      nestedRequest.displayPath nestedInner.path = ("src/a.ts" : Text) ∧
      ∃ summary, (nestedRequest.run KeyMap.empty nestedDisk).2 = .ok summary ∧
        summary.filesScanned = 2 ∧ summary.diagnostics.length = 2 ∧
        ∀ diagnostic ∈ summary.diagnostics, diagnostic.filePath = ("a.ts" : Text) := by
  refine ⟨by decide +kernel, by decide +kernel, ?_⟩
  have report (file : FileRef) (reason : Text) (shown : (Diagnostic.relativePath? ("src" : Text)
      (nestedRequest.displayPath file.path)).getD (nestedRequest.displayPath file.path) =
        ("a.ts" : Text)) :
      ((Diagnostic.unreadable (nestedRequest.displayPath file.path) reason).relativize
        ("src" : Text)).filePath = ("a.ts" : Text) :=
    (Diagnostic.filePath_relativize _ _).trans shown
  obtain ⟨reason, first⟩ := visit_nested { disk := nestedDisk } rfl
    (List.mem_cons_self : nestedOuter ∈ _)
  generalize outer : (Diagnostic.unreadable (nestedRequest.displayPath nestedOuter.path)
    reason).relativize ("src" : Text) = one at first
  obtain ⟨reason', second⟩ :=
    visit_nested { disk := nestedDisk, diagnostics := [one] } rfl
      (List.mem_cons_of_mem nestedOuter (List.mem_singleton_self nestedInner))
  generalize inner : (Diagnostic.unreadable (nestedRequest.displayPath nestedInner.path)
    reason').relativize ("src" : Text) = two at second
  have worked : nestedRequest.visitAll (.gloss KeyMap.empty) nestedRequest.hook { disk := nestedDisk }
      [nestedOuter, nestedInner] = ({ disk := nestedDisk, diagnostics := [one, two] }, .ok ()) := by
    rw [visitAll, first]
    simp only [List.nil_append]
    rw [visitAll, second]
    rfl
  refine ⟨nestedRequest.summarize 2 { disk := nestedDisk, diagnostics := [one, two] }, ?_, rfl,
    List.length_mergeSort _, fun diagnostic listed => ?_⟩
  · simp only [run, prepare_nested, worked]
    rfl
  · have member : diagnostic ∈ [one, two] := List.mem_mergeSort.mp listed
    simp only [List.mem_cons, List.not_mem_nil, or_false] at member
    rcases member with rfl | rfl
    · rw [← outer]
      exact report nestedOuter reason (by decide +kernel)
    · rw [← inner]
      exact report nestedInner reason' (by decide +kernel)

end Injection

end KeyGloss
