import KeyGloss.ImportSpecifier
import KeyGloss.Proofs.Disk.Tree
import KeyGloss.Proofs.Path

/-!
# When there is no import specifier

Between files below one root only two layouts leave an import without a specifier: a file that lies
where relative paths start, so that its path names no directory, and a file whose directory is named
like the module without its extension (`between_below`).
-/

namespace KeyGloss

namespace ImportSpecifier

/-- A file from which no import leads to a module. -/
def Stranded (source target : Path) : Prop :=
  (movingSteps source).dropLast = [] ∨
    (movingSteps source).dropLast = movingSteps target.withoutExtension

/-- A step that leads to a file or a directory below. -/
def IsEntry (step : Step) : Prop := ∃ name, step = .entry name

theorem commonLength_append (base a b : List Step) :
    commonLength (base ++ a) (base ++ b) = base.length + commonLength a b := by
  induction base with
  | nil => simp
  | cons step base ih =>
    simp only [List.cons_append, commonLength, if_true, ih, List.length_cons]
    omega

/-- Only equal lists share all their steps. -/
theorem drop_commonLength_eq_nil {a b : List Step} :
    a.drop (commonLength a b) = [] ∧ b.drop (commonLength a b) = [] ↔ a = b := by
  induction a generalizing b with
  | nil => cases b <;> simp [commonLength]
  | cons first a ih =>
    cases b with
    | nil => simp [commonLength]
    | cons second b =>
      unfold commonLength
      split
      · next same =>
        rw [List.drop_succ_cons, List.drop_succ_cons, ih, List.cons.injEq]
        simp [same]
      · next different => simp [different]

/-- A directory is left by one climb for each of its names, if it has nothing else. -/
theorem climb?_eq_some_iff {steps : List Step} {up : List Text} :
    climb? steps = some up ↔
      (∀ step ∈ steps, IsEntry step) ∧ up = List.replicate steps.length ['.', '.'] := by
  induction steps generalizing up with
  | nil => simp [climb?, eq_comm]
  | cons step steps ih =>
    rw [List.forall_mem_cons]
    cases step with
    | entry name =>
      rw [climb?, Option.map_eq_some_iff]
      constructor
      · rintro ⟨later, climbs, rfl⟩
        obtain ⟨entries, rfl⟩ := ih.mp climbs
        exact ⟨⟨⟨name, rfl⟩, entries⟩, rfl⟩
      · rintro ⟨⟨-, entries⟩, rfl⟩
        exact ⟨_, ih.mpr ⟨entries, rfl⟩, rfl⟩
    | _ => simp [climb?, IsEntry]

theorem descend?_moving {steps : List Step} (moving : ∀ step ∈ steps, step = .up ∨ IsEntry step) :
    ∃ down, descend? steps = some down ∧ down.length = steps.length := by
  induction steps with
  | nil => exact ⟨[], rfl, rfl⟩
  | cons step steps ih =>
    obtain ⟨first, later⟩ := List.forall_mem_cons.mp moving
    obtain ⟨down, descends, length⟩ := ih later
    rcases first with rfl | ⟨name, rfl⟩
    · exact ⟨_, by rw [descend?, descends]; rfl, by simp [length]⟩
    · exact ⟨_, by rw [descend?, descends]; rfl, by simp [length]⟩

theorem isAnchor_eq_false {step : Step} (moving : step = .up ∨ IsEntry step) :
    isAnchor step = false := by
  rcases moving with rfl | ⟨name, rfl⟩ <;> rfl

/-- The way from a directory to a target, both below `base`. -/
theorem segments?_below (base : List Step) {a b : List Step} (entries : ∀ step ∈ a, IsEntry step)
    (moving : ∀ step ∈ b, step = .up ∨ IsEntry step) (more : base ++ b ≠ []) :
    (∃ segment rest, segments? (base ++ a) (base ++ b) = some (segment :: rest)) ↔
      ¬ (base ++ a = [] ∨ base ++ a = base ++ b) := by
  -- Both lists start in the same way, unless the first is empty.
  have anchored : (base ++ a).head?.map isAnchor = (base ++ b).head?.map isAnchor ↔
      base ++ a ≠ [] := by
    cases base with
    | cons step base => simp
    | nil =>
      obtain ⟨second, b, rfl⟩ := List.exists_cons_of_ne_nil more
      have right := isAnchor_eq_false (moving second List.mem_cons_self)
      cases a with
      | nil => simp
      | cons first a =>
        have left := isAnchor_eq_false (.inr (entries first List.mem_cons_self))
        simp [left, right]
  have dropped (c : List Step) (n : Nat) : (base ++ c).drop (base.length + n) = c.drop n := by
    rw [List.drop_length_add_append]
  obtain ⟨up, climbs, ups⟩ : ∃ up, climb? (a.drop (commonLength a b)) = some up ∧
      up.length = (a.drop (commonLength a b)).length :=
    ⟨_, climb?_eq_some_iff.mpr ⟨fun step inside => entries step (List.mem_of_mem_drop inside), rfl⟩,
      List.length_replicate⟩
  have descending : ∀ step ∈ b.drop (commonLength a b), step = .up ∨ IsEntry step :=
    fun step inside => moving step (List.mem_of_mem_drop inside)
  obtain ⟨down, descends, downs⟩ := descend?_moving descending
  have nothing : up ++ down = [] ↔ a = b := by
    rw [List.append_eq_nil_iff, ← drop_commonLength_eq_nil, ← List.length_eq_zero_iff, ups,
      ← List.length_eq_zero_iff (l := down), downs, List.length_eq_zero_iff, List.length_eq_zero_iff]
  unfold segments?
  by_cases start : base ++ a = []
  · rw [if_neg fun same => anchored.mp same start]
    simp [start]
  · rw [if_pos (anchored.mpr start)]
    simp only [commonLength_append, dropped, climbs, descends, Option.some.injEq]
    rw [List.append_cancel_left_eq, ← nothing]
    cases up ++ down <;> simp [start]

/-- Moving steps are kept. -/
theorem filter_moving {steps : List Step} (moving : ∀ step ∈ steps, step ≠ .here) :
    steps.filter (· != .here) = steps :=
  List.filter_eq_self.mpr fun step inside => bne_iff_ne.mpr (moving step inside)

theorem ne_here {step : Step} (moving : step = .up ∨ IsEntry step) : step ≠ .here := by
  rcases moving with rfl | ⟨name, rfl⟩ <;> simp

/-- The directory of a file has all steps of the file but the last. -/
theorem movingSteps_parent (p : Path) : movingSteps (p.parent?.getD []) = (movingSteps p).dropLast := by
  obtain ⟨rest, moving, start⟩ := Path.steps_cases p
  have all := filter_moving fun step inside => ne_here (moving step inside)
  have front := filter_moving fun step inside =>
    ne_here (moving step (List.dropLast_subset _ inside))
  rw [movingSteps, movingSteps, Path.steps_parent_eq_dropLast]
  obtain ⟨-, equal⟩ | ⟨-, equal | equal⟩ := start
  · rw [equal]
    cases rest with
    | nil => rfl
    | cons first rest =>
      rw [List.dropLast_cons_cons, List.filter_cons, if_pos (by decide), front, List.filter_cons,
        if_pos (by decide), all, List.dropLast_cons_cons]
  · rw [equal, front, all]
  · rw [equal]
    cases rest with
    | nil => rfl
    | cons first rest =>
      rw [List.dropLast_cons_cons, List.filter_cons, if_neg (by decide), front, List.filter_cons,
        if_neg (by decide), all]

section Below

variable (root : Path)

theorem steps_foldl_join {names : List Text} (valid : ∀ name ∈ names, IsEntryName name) :
    (names.foldl Path.join root).steps = root.steps ++ names.map .entry := by
  induction names generalizing root with
  | nil => simp
  | cons name names ih =>
    obtain ⟨⟨notEmpty, notHere, notUp, plain⟩, later⟩ := List.forall_mem_cons.mp valid
    obtain ⟨u, opens, spelled, steps⟩ := Path.join_eq_append root plain
    rw [List.foldl_cons, ih _ later, spelled,
      Path.steps_append opens plain (Path.pieceStep?_eq_entry _ notEmpty notHere notUp), steps]
    simp

theorem movingSteps_of_steps {p q : Path} (more : List Step) (equal : p.steps = q.steps ++ more)
    (moving : ∀ step ∈ more, step = .up ∨ IsEntry step) :
    movingSteps p = movingSteps q ++ more := by
  rw [movingSteps, equal, List.filter_append, filter_moving fun step inside =>
    ne_here (moving step inside), movingSteps]

theorem isEntry_map (names : List Text) : ∀ step ∈ names.map Step.entry, IsEntry step := by
  rw [List.forall_mem_map]
  exact fun name _ => ⟨name, rfl⟩

/-- The directory of a file below the root. -/
theorem movingSteps_directory {folders : List Text} {name : Text}
    (valid : ∀ n ∈ folders ++ [name], IsEntryName n) :
    (movingSteps ((folders ++ [name]).foldl Path.join root)).dropLast =
      movingSteps root ++ folders.map .entry := by
  have all := movingSteps_of_steps _ (steps_foldl_join root valid)
    fun step inside => .inr (isEntry_map _ step inside)
  rw [all, List.map_append, List.map_singleton, ← List.append_assoc, List.dropLast_concat]

/-- The way from the root to a module below it, without the module's extension. -/
theorem movingSteps_module {folders : List Text} {name : Text}
    (valid : ∀ n ∈ folders ++ [name], IsEntryName n) :
    ∃ way, way ≠ [] ∧ (∀ step ∈ way, step = .up ∨ IsEntry step) ∧
      movingSteps ((folders ++ [name]).foldl Path.join root).withoutExtension =
        movingSteps root ++ way := by
  obtain ⟨notEmpty, notHere, notUp, plain⟩ := valid name (by simp)
  obtain ⟨u, opens, spelled, steps⟩ := Path.join_eq_append (folders.foldl Path.join root) plain
  obtain ⟨last, moving, cut⟩ := Path.steps_withoutExtension opens plain
    (Path.pieceStep?_eq_entry _ notEmpty notHere notUp)
  have target : (folders ++ [name]).foldl Path.join root = u ++ name := by
    rw [List.foldl_append, List.foldl_cons, List.foldl_nil, spelled]
  rw [steps, steps_foldl_join root fun n inside => valid n (List.mem_append_left _ inside), ← target,
    List.append_assoc] at cut
  have descent : ∀ step ∈ folders.map Step.entry ++ [last], step = .up ∨ IsEntry step := by
    intro step inside
    rcases List.mem_append.mp inside with front | back
    · exact .inr (isEntry_map folders step front)
    · exact List.mem_singleton.mp back ▸ moving
  exact ⟨_, by simp, descent, movingSteps_of_steps _ cut descent⟩

/-- Between two files below a root, a specifier is missing exactly if the importing file is
stranded. -/
theorem between_below {source target : Place} {failure : Failure} (named : source ≠ [])
    (named' : target ≠ []) (valid : ∀ name ∈ source, IsEntryName name)
    (valid' : ∀ name ∈ target, IsEntryName name) :
    between (source.foldl Path.join root) (target.foldl Path.join root) = .error failure ↔
      failure = .importPath (source.foldl Path.join root) (target.foldl Path.join root) ∧
        Stranded (source.foldl Path.join root) (target.foldl Path.join root) := by
  obtain ⟨folders, name, rfl⟩ : ∃ folders name, source = folders ++ [name] :=
    ⟨_, _, (List.dropLast_concat_getLast named).symm⟩
  obtain ⟨folders', name', rfl⟩ : ∃ folders name, target = folders ++ [name] :=
    ⟨_, _, (List.dropLast_concat_getLast named').symm⟩
  have directory := movingSteps_directory root valid
  obtain ⟨way, more, descent, reach⟩ := movingSteps_module root valid'
  have found := segments?_below (movingSteps root) (isEntry_map folders) descent (by simp [more])
  unfold between Stranded
  rw [movingSteps_parent, directory, reach]
  simp only
  split
  · next segment rest spelled =>
    have reachable := found.mp ⟨segment, rest, spelled⟩
    simp only [reachable, and_false, reduceCtorEq]
  · next missing =>
    have stranded := not_not.mp (mt found.mpr fun ⟨segment, rest, spelled⟩ =>
      missing segment rest spelled)
    rw [and_iff_left stranded, Except.error.injEq]
    exact eq_comm

end Below

end ImportSpecifier

end KeyGloss
