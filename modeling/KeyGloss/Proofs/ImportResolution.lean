import Mathlib.Data.List.Induction
import KeyGloss.Proofs.ImportSpecifier

/-!
# Where import specifiers lead

A specifier is followed segment by segment from the directory of the importing file (`follow?`). It climbs
out of the names that only this directory has and then goes down as the module's path does
(`segments?_eq_some`), so it leads to the module without its extension, unless that path itself climbs
(`between_leads_to_module`). It may still be read as the name of a package: `between_relative_iff` tells the
files between which there is a specifier and it is relative.
-/

namespace KeyGloss

namespace ImportSpecifier

variable {source target : Path} {specifier : Text} {directory goal steps : List Step}
  {segments : List Text}

/-! ## Where a specifier leads -/

/-- Where one segment leads from a directory: a dot stays there, two dots leave a directory that has a
name, and anything else is the name of an entry. -/
def move? (directory : List Step) (segment : Text) : Option (List Step) :=
  if segment = ['.'] then some directory
  else if segment = ['.', '.'] then
    match directory.getLast? with
    | some (.entry _) => some directory.dropLast
    | _ => none
  else some (directory ++ [.entry segment])

/-- Where the segments of a specifier lead one after the other. -/
def follow? (directory : List Step) (specifier : Text) : Option (List Step) :=
  (specifier.splitOn '/').foldlM move? directory

theorem move?_dot (directory : List Step) : move? directory ['.'] = some directory := rfl

theorem move?_up (directory : List Step) (name : Text) :
    move? (directory ++ [.entry name]) ['.', '.'] = some directory := by
  simp [move?]

theorem move?_entry (directory : List Step) {name : Text} (valid : IsEntryName name) :
    move? directory name = some (directory ++ [.entry name]) := by
  rw [move?, if_neg valid.2.1, if_neg valid.2.2.1]

/-- No segment leads to a step that climbs. -/
theorem up_not_mem_of_move? {segment : Text} (plain : .up ∉ directory)
    (moves : move? directory segment = some goal) : .up ∉ goal := by
  unfold move? at moves
  split at moves
  · exact Option.some.inj moves ▸ plain
  · split at moves
    · split at moves
      · rw [← Option.some.inj moves]
        exact fun member => plain (List.dropLast_subset _ member)
      · cases moves
    · rw [← Option.some.inj moves]
      simpa using plain

theorem up_not_mem_of_foldlM (plain : .up ∉ directory)
    (leads : segments.foldlM move? directory = some goal) : .up ∉ goal := by
  induction segments generalizing directory with
  | nil => exact Option.some.inj leads ▸ plain
  | cons segment segments ih =>
    obtain ⟨next, moves, later⟩ := Option.bind_eq_some_iff.mp leads
    exact ih (up_not_mem_of_move? plain moves) later

/-- As many climbs as there are names at the end of a directory lead out of them. -/
theorem foldlM_climb (directory : List Step) (entries : ∀ step ∈ steps, IsEntry step) :
    (List.replicate steps.length (['.', '.'] : Text)).foldlM move? (directory ++ steps) =
      some directory := by
  induction steps using List.reverseRecOn with
  | nil => simp
  | append_singleton steps last ih =>
    obtain ⟨name, rfl⟩ := entries last (by simp)
    rw [List.length_append, List.length_singleton, List.replicate_succ, List.foldlM_cons,
      ← List.append_assoc, move?_up]
    exact ih fun step inside => entries step (by simp [inside])

/-- Names lead down to the entries that they name. -/
theorem foldlM_descend (directory : List Step) (valid : ∀ name ∈ segments, IsEntryName name) :
    segments.foldlM move? directory = some (directory ++ segments.map .entry) := by
  induction segments generalizing directory with
  | nil => simp
  | cons name segments ih =>
    obtain ⟨here, later⟩ := List.forall_mem_cons.mp valid
    rw [List.foldlM_cons, move?_entry directory here]
    exact (ih _ later).trans (by simp)

/-! ## The segments of a specifier -/

theorem descend?_eq_some (descends : descend? steps = some segments) (plain : .up ∉ steps) :
    steps = segments.map .entry := by
  induction steps generalizing segments with
  | nil => simpa [descend?, eq_comm] using descends
  | cons step steps ih =>
    cases step with
    | entry name =>
      obtain ⟨down, later, rfl⟩ := Option.map_eq_some_iff.mp descends
      rw [List.map_cons, ← ih later fun inside => plain (List.mem_cons_of_mem _ inside)]
    | up => exact absurd List.mem_cons_self plain
    | _ => cases descends

theorem take_commonLength (a b : List Step) :
    a.take (commonLength a b) = b.take (commonLength a b) := by
  induction a generalizing b with
  | nil => simp [commonLength]
  | cons first a ih =>
    cases b with
    | nil => simp [commonLength]
    | cons second b =>
      unfold commonLength
      split
      · next same => rw [List.take_succ_cons, List.take_succ_cons, ih b, same]
      · rfl

/-- What the segments of a way are: it climbs out of the names that only the directory has, and then goes
on as the goal does. -/
theorem segments?_eq_some (way : segments? directory goal = some segments) :
    ∃ base left ahead down, directory = base ++ left ∧ goal = base ++ ahead ∧
      (∀ step ∈ left, IsEntry step) ∧ descend? ahead = some down ∧
      segments = List.replicate left.length ['.', '.'] ++ down := by
  unfold segments? at way
  split at way
  · simp only at way
    split at way
    · next up down climbs descends =>
      obtain ⟨entries, rfl⟩ := climb?_eq_some_iff.mp climbs
      refine ⟨_, _, _, down, (List.take_append_drop _ _).symm, ?_, entries, descends,
        (Option.some.inj way).symm⟩
      rw [take_commonLength, List.take_append_drop]
    · cases way
  · cases way

/-- Every segment climbs or is a name on the way. -/
theorem mem_of_descend? {segment : Text} (descends : descend? steps = some segments)
    (member : segment ∈ segments) : segment = ['.', '.'] ∨ .entry segment ∈ steps := by
  induction steps generalizing segments with
  | nil => simp_all [descend?]
  | cons step steps ih =>
    cases step with
    | entry name =>
      obtain ⟨down, later, rfl⟩ := Option.map_eq_some_iff.mp descends
      rcases List.mem_cons.mp member with rfl | inside
      · exact .inr List.mem_cons_self
      · exact (ih later inside).imp_right (List.mem_cons_of_mem _)
    | up =>
      obtain ⟨down, later, rfl⟩ := Option.map_eq_some_iff.mp descends
      rcases List.mem_cons.mp member with rfl | inside
      · exact .inl rfl
      · exact (ih later inside).imp_right (List.mem_cons_of_mem _)
    | _ => cases descends

/-- The names of a way are names that entries can have. -/
def Named (steps : List Step) : Prop := ∀ name, .entry name ∈ steps → IsEntryName name

theorem named_movingSteps (p : Path) : Named (movingSteps p) := by
  intro name member
  obtain ⟨⟨notEmpty, notHere, notUp⟩, plain, -⟩ :=
    Path.name_of_mem_steps (List.mem_of_mem_filter member)
  exact ⟨notEmpty, notHere, notUp, plain⟩

theorem plain_of_segments? (named : Named goal) (way : segments? directory goal = some segments) :
    ∀ segment ∈ segments, '/' ∉ segment := by
  obtain ⟨base, left, ahead, down, -, rfl, -, descends, rfl⟩ := segments?_eq_some way
  intro segment member
  rcases List.mem_append.mp member with climb | inside
  · rw [List.eq_of_mem_replicate climb]
    decide
  · rcases mem_of_descend? descends inside with rfl | listed
    · decide
    · exact (named segment (List.mem_append_right _ listed)).slashFree

/-- The segments of a way lead from the directory to the goal. -/
theorem foldlM_segments? (named : Named goal) (plain : .up ∉ goal)
    (way : segments? directory goal = some segments) :
    segments.foldlM move? directory = some goal := by
  obtain ⟨base, left, ahead, down, rfl, rfl, entries, descends, rfl⟩ := segments?_eq_some way
  have names := descend?_eq_some descends fun inside => plain (List.mem_append_right _ inside)
  subst names
  rw [List.foldlM_append, foldlM_climb base entries]
  refine foldlM_descend base fun name inside => named name ?_
  exact List.mem_append_right _ (List.mem_map_of_mem inside)

/-! ## The spelling of a specifier -/

theorem prefix_join_iff {x : Text} (segment : Text) (rest : List Text) (plain : '/' ∉ x) :
    x <+: Text.join ['/'] (segment :: rest) ↔ x <+: segment := by
  by_cases last : rest = []
  · simp [last, Text.join]
  · rw [Text.join_cons segment last]
    refine ⟨fun leads => ?_, fun leads => leads.trans (List.prefix_append _ _)⟩
    refine (List.prefix_or_prefix_of_prefix leads (List.prefix_append _ _)).elim id fun longer => ?_
    obtain ⟨more, rfl⟩ := longer
    cases more with
    | nil => simp
    | cons c more =>
      obtain ⟨rfl, -⟩ := List.cons_prefix_cons.mp ((List.prefix_append_right_inj segment).mp leads)
      simp at plain

theorem splitOn_spell {segment : Text} {rest : List Text}
    (plain : ∀ s ∈ segment :: rest, '/' ∉ s) :
    (spell (segment :: rest)).splitOn '/' =
      if ['.', '.'] <+: segment then segment :: rest else ['.'] :: segment :: rest := by
  have parts : (Text.join ['/'] (segment :: rest)).splitOn '/' = segment :: rest :=
    List.splitOn_intercalate '/' plain (List.cons_ne_nil _ _)
  have spelled : spell (segment :: rest) =
      if ['.', '.'] <+: segment then Text.join ['/'] (segment :: rest)
      else ['.'] ++ '/' :: Text.join ['/'] (segment :: rest) := by
    have climbs := prefix_join_iff (x := ['.', '.']) segment rest (by decide)
    simp only [← climbs, ← List.isPrefixOf_iff_prefix]
    rfl
  rw [spelled]
  split
  · exact parts
  · rw [List.splitOn_append_cons_self, parts]
    rfl

theorem follow?_spell {segment : Text} {rest : List Text} (plain : ∀ s ∈ segment :: rest, '/' ∉ s)
    (directory : List Step) :
    follow? directory (spell (segment :: rest)) = (segment :: rest).foldlM move? directory := by
  rw [follow?, splitOn_spell plain]
  split
  · rfl
  · rw [List.foldlM_cons, move?_dot]
    rfl

theorem between_eq_ok_iff :
    between source target = .ok specifier ↔
      ∃ segment rest, segments? (movingSteps (source.parent?.getD []))
        (movingSteps target.withoutExtension) = some (segment :: rest) ∧
        specifier = spell (segment :: rest) := by
  unfold between
  simp only
  split
  · next segment rest way =>
    rw [way, Except.ok.injEq]
    constructor
    · rintro rfl
      exact ⟨segment, rest, rfl, rfl⟩
    · rintro ⟨other, more, same, rfl⟩
      rw [Option.some.inj same]
  · next noWay =>
    constructor
    · intro equal
      cases equal
    · rintro ⟨segment, rest, way, -⟩
      exact absurd way (noWay segment rest)

/-- A specifier for a file that no step climbs to leads from its directory to the module without its
extension, exactly if the latter has no step that climbs. -/
theorem between_leads_to_module (source target : Path) (specifier : Text)
    (plain : .up ∉ source.steps) (found : between source target = .ok specifier) :
    follow? (movingSteps (source.parent?.getD [])) specifier =
        some (movingSteps target.withoutExtension) ↔
      .up ∉ target.withoutExtension.steps := by
  obtain ⟨segment, rest, way, rfl⟩ := between_eq_ok_iff.mp found
  have named := named_movingSteps target.withoutExtension
  have climbing (p : Path) : .up ∈ movingSteps p ↔ .up ∈ p.steps := by simp [movingSteps]
  rw [follow?_spell (plain_of_segments? named way), ← climbing]
  constructor
  · refine up_not_mem_of_foldlM fun member => plain ?_
    rw [climbing, Path.steps_parent_eq_dropLast] at member
    exact List.dropLast_subset _ member
  · exact fun level => foldlM_segments? named level way

/-- A file in folders that the module is not in, and a name on the way that begins with two dots. -/
theorem between_leads_to_module_climbing :
    let source : Path := ("./src//app/[id]/page.tsx" : Text)
    let target : Path := ("src/..k/./tKeys.d.ts/" : Text)
    let specifier : Text := "../../..k/tKeys.d"
    .up ∉ source.steps ∧ between source target = .ok specifier ∧
      follow? (movingSteps (source.parent?.getD [])) specifier =
        some [.entry "src", .entry "..k", .entry "tKeys.d"] := by
  intro source target specifier
  have plain : .up ∉ source.steps := by decide +kernel
  have found : between source target = .ok specifier :=
    between_eq_ok_iff.mpr ⟨"..", ["..", "..k", "tKeys.d"], by decide +kernel, by decide +kernel⟩
  have level : .up ∉ target.withoutExtension.steps := by decide +kernel
  have goal : movingSteps target.withoutExtension = [.entry "src", .entry "..k", .entry "tKeys.d"] := by
    decide +kernel
  rw [← goal]
  exact ⟨plain, found, (between_leads_to_module source target specifier plain found).mpr level⟩

/-- A module whose name is two dots and an extension: what is left of the name climbs, and the specifier
leads to the directory above and not to the module. -/
theorem between_misses_module :
    let source : Path := ("/p/a.ts" : Text)
    let target : Path := ("/p/...ts" : Text)
    .up ∉ source.steps ∧ .up ∉ target.steps ∧ between source target = .ok ".." ∧
      follow? (movingSteps (source.parent?.getD [])) ".." = some [.root] ∧
      movingSteps target.withoutExtension = [.root, .entry "p", .up] := by
  refine ⟨by decide +kernel, by decide +kernel, ?_, by decide +kernel, by decide +kernel⟩
  exact between_eq_ok_iff.mpr ⟨"..", [], by decide +kernel, by decide +kernel⟩

/-! ## When a specifier is relative -/

/-- A specifier whose first segment is a dot or two, so that it is not read as the name of a package. -/
def IsRelative (specifier : Text) : Prop :=
  (specifier.splitOn '/').head? = some ['.'] ∨ (specifier.splitOn '/').head? = some ['.', '.']

instance : DecidablePred IsRelative := fun specifier =>
  inferInstanceAs (Decidable ((specifier.splitOn '/').head? = some ['.'] ∨
    (specifier.splitOn '/').head? = some ['.', '.']))

theorem isRelative_spell {segment : Text} {rest : List Text} (plain : ∀ s ∈ segment :: rest, '/' ∉ s) :
    IsRelative (spell (segment :: rest)) ↔ (['.', '.'] <+: segment → segment = ['.', '.']) := by
  rw [IsRelative, splitOn_spell plain]
  split
  · next climbs =>
    have notDot : segment ≠ ['.'] := by
      rintro rfl
      revert climbs
      decide
    simp [climbs, notDot]
  · next other => simp [other]

/-- The moving steps of a path go on from the root if the path is absolute. -/
theorem movingSteps_cases (p : Path) :
    ∃ rest, (∀ step ∈ rest, step = .up ∨ IsEntry step) ∧
      movingSteps p = (if p.isAbsolute then [.root] else []) ++ rest := by
  obtain ⟨rest, moving, start⟩ := Path.steps_cases p
  have all := filter_moving fun step inside => ne_here (moving step inside)
  refine ⟨rest, moving, ?_⟩
  obtain ⟨absolute, equal⟩ | ⟨relative, equal | equal⟩ := start
  · rw [movingSteps, equal, absolute, List.filter_cons, if_pos (by decide), all]
    rfl
  · rw [movingSteps, equal, relative, all]
    rfl
  · rw [movingSteps, equal, relative, List.filter_cons, if_neg (by decide), all]
    rfl

/-- The way to a goal ahead. -/
theorem segments?_append (notEmpty : directory ≠ []) (ahead : List Step) :
    segments? directory (directory ++ ahead) = descend? ahead := by
  have common : commonLength directory (directory ++ ahead) = directory.length := by
    simpa [commonLength] using commonLength_append directory [] ahead
  have start : (directory ++ ahead).head? = directory.head? := List.head?_append_of_ne_nil _ notEmpty
  unfold segments?
  rw [if_pos (by rw [start])]
  simp only [common, List.drop_length, List.drop_left, climb?]
  cases descend? ahead <;> rfl

theorem segments?_nil_left (goal : List Step) (segment : Text) (rest : List Text) :
    segments? [] goal ≠ some (segment :: rest) := by
  cases goal <;> simp [segments?, commonLength, climb?, descend?]

theorem segments?_nil_right (directory : List Step) (segment : Text) (rest : List Text) :
    segments? directory [] ≠ some (segment :: rest) := by
  cases directory <;> simp [segments?, commonLength, climb?, descend?]

/-- Two files that are told from the same start have a way between them, unless the first is stranded or
the module is the start itself. -/
theorem exists_segments?_iff (plain : .up ∉ source.steps) (alike : source.isAbsolute = target.isAbsolute) :
    (∃ segment rest, segments? (movingSteps source).dropLast (movingSteps target.withoutExtension) =
        some (segment :: rest)) ↔
      ¬ Stranded source target ∧ movingSteps target.withoutExtension ≠ [] := by
  rw [Stranded, not_or]
  by_cases start : (movingSteps source).dropLast = []
  · simp [start, segments?_nil_left]
  by_cases empty : movingSteps target.withoutExtension = []
  · simp [empty, segments?_nil_right]
  obtain ⟨a, entries, first⟩ := movingSteps_cases source
  obtain ⟨b, moving, second⟩ := movingSteps_cases target.withoutExtension
  have names : ∀ step ∈ a.dropLast, IsEntry step := by
    intro step inside
    have member := List.dropLast_subset _ inside
    refine (entries step member).resolve_left ?_
    rintro rfl
    have moving : .up ∈ movingSteps source := first ▸ List.mem_append_right _ member
    exact plain (List.mem_of_mem_filter moving)
  have folder : (movingSteps source).dropLast =
      (if source.isAbsolute then [.root] else []) ++ a.dropLast := by
    have more : a ≠ [] := by
      rintro rfl
      refine start ?_
      rw [first]
      cases source.isAbsolute <;> rfl
    rw [first, List.dropLast_append_of_ne_nil more]
  rw [Path.isAbsolute_withoutExtension, ← alike] at second
  rw [second] at empty
  have found := segments?_below _ names moving empty
  rw [← folder, ← second] at found
  rw [found, second]
  simp [start, empty]

/-- The first segment of a way climbs, or is the name that the goal has next behind the directory. -/
theorem segments?_head {segment : Text} {rest : List Text}
    (way : segments? directory goal = some (segment :: rest)) :
    segment = ['.', '.'] ∨ ∃ more, goal = directory ++ .entry segment :: more := by
  obtain ⟨base, left, ahead, down, rfl, rfl, -, descends, parts⟩ := segments?_eq_some way
  cases left with
  | cons step left => exact .inl (List.cons.inj parts).1
  | nil =>
    rw [List.length_nil, List.replicate_zero, List.nil_append] at parts
    subst parts
    rw [List.append_nil]
    cases ahead with
    | nil => cases descends
    | cons step ahead =>
      cases step with
      | entry name =>
        obtain ⟨later, -, equal⟩ := Option.map_eq_some_iff.mp descends
        obtain ⟨rfl, -⟩ := List.cons.inj equal
        exact .inr ⟨ahead, rfl⟩
      | up =>
        obtain ⟨later, -, equal⟩ := Option.map_eq_some_iff.mp descends
        exact .inl (List.cons.inj equal).1.symm
      | _ => cases descends

/-- A way to a goal ahead starts with the name that comes next. -/
theorem segments?_ahead {name segment : Text} {rest : List Text} {more : List Step}
    (way : segments? directory (directory ++ .entry name :: more) = some (segment :: rest)) :
    segment = name := by
  have notEmpty : directory ≠ [] := by
    rintro rfl
    exact segments?_nil_left _ segment rest way
  rw [segments?_append notEmpty] at way
  obtain ⟨later, -, equal⟩ := Option.map_eq_some_iff.mp way
  exact (List.cons.inj equal).1.symm

/-- Two files that are told from the same start, the first without steps that climb, have a relative
specifier exactly if the first is not stranded, the module is not the start itself, and the way does not go
down to a name that begins with two dots. -/
theorem between_relative_iff (source target : Path) (plain : .up ∉ source.steps)
    (alike : source.isAbsolute = target.isAbsolute) :
    (∃ specifier, between source target = .ok specifier ∧ IsRelative specifier) ↔
      ¬ Stranded source target ∧ movingSteps target.withoutExtension ≠ [] ∧
        ∀ name rest, movingSteps target.withoutExtension =
          (movingSteps source).dropLast ++ .entry name :: rest → ¬ ['.', '.'] <+: name := by
  have named := named_movingSteps target.withoutExtension
  simp only [between_eq_ok_iff, movingSteps_parent]
  rw [← and_assoc, ← exists_segments?_iff plain alike]
  constructor
  · rintro ⟨_, ⟨segment, rest, way, rfl⟩, relative⟩
    rw [isRelative_spell (plain_of_segments? named way)] at relative
    refine ⟨⟨segment, rest, way⟩, fun name more ahead climbs => ?_⟩
    rw [ahead] at way named
    obtain rfl := segments?_ahead way
    exact (named segment (by simp)).2.2.1 (relative climbs)
  · rintro ⟨⟨segment, rest, way⟩, level⟩
    refine ⟨_, ⟨segment, rest, way, rfl⟩, ?_⟩
    rw [isRelative_spell (plain_of_segments? named way)]
    intro climbs
    refine (segments?_head way).resolve_right ?_
    rintro ⟨more, ahead⟩
    exact level segment more ahead climbs

/-- A module whose name begins with two dots, in the directory above. -/
theorem between_relative_iff_above :
    let source : Path := ("src/app/a.ts" : Text)
    let target : Path := ("./src/..k.ts" : Text)
    .up ∉ source.steps ∧ source.isAbsolute = target.isAbsolute ∧
      ∃ specifier, between source target = .ok specifier ∧ IsRelative specifier := by
  intro source target
  have plain : .up ∉ source.steps := by decide +kernel
  have alike : source.isAbsolute = target.isAbsolute := by decide +kernel
  have directory : (movingSteps source).dropLast = [.entry "src", .entry "app"] := by decide +kernel
  have goal : movingSteps target.withoutExtension = [.entry "src", .entry "..k"] := by decide +kernel
  refine ⟨plain, alike, (between_relative_iff source target plain alike).mpr ?_⟩
  rw [Stranded, directory, goal]
  refine ⟨by decide +kernel, by simp, fun name rest ahead => ?_⟩
  simp at ahead

/-- A folder whose name begins with two dots, beside the importing file: what is spelled is the name of
a package. -/
theorem between_not_relative :
    let source : Path := ("/p/a.ts" : Text)
    let target : Path := ("/p/..k/tKeys.ts" : Text)
    source.fileName? = some ("a.ts" : Text) ∧ target.fileName? = some ("tKeys.ts" : Text) ∧
      .up ∉ source.steps ∧ .up ∉ target.steps ∧ source.isAbsolute = target.isAbsolute ∧
      between source target = .ok "..k/tKeys" ∧ ¬ IsRelative "..k/tKeys" := by
  intro source target
  have found : between source target = .ok "..k/tKeys" :=
    between_eq_ok_iff.mpr ⟨"..k", ["tKeys"], by decide +kernel, by decide +kernel⟩
  have bare : ¬ IsRelative "..k/tKeys" := by decide +kernel
  exact ⟨by decide +kernel, by decide +kernel, by decide +kernel, by decide +kernel, by decide +kernel,
    found, bare⟩

end ImportSpecifier

end KeyGloss
