import KeyGloss.Config.Discover
import KeyGloss.Proofs.Path

/-!
# The nearest configuration

A configuration is looked for in a list of directories that is read off the start. This module says what
the list is: each directory in it is the one above the directory before it (`ancestors_eq`), so going up
from the start comes to them one by one and ends behind the last (`getElem?_ancestors`).
-/

namespace KeyGloss

namespace Path

variable {p q : Path}

/-- The directory that lies so many levels above a path. -/
def above? : Nat → Path → Option Path
  | 0, p => some p
  | levels + 1, p => p.parent?.bind (above? levels)

/-! ## The list of ancestors -/

theorem stop_of_mem_locatePieces {offset : Nat} {pieces : List Text} {place : Located}
    (member : place ∈ locatePieces offset pieces) : place.start ≤ place.stop := by
  induction pieces generalizing offset with
  | nil => simp [locatePieces] at member
  | cons piece pieces ih =>
    rw [locatePieces_cons, List.mem_append] at member
    rcases member with here | later
    · obtain ⟨step, -, rfl⟩ := Option.map_eq_some_iff.mp (Option.mem_toList.mp here)
      exact Nat.le_add_right _ _
    · exact ih later

theorem pairwise_locatePieces (offset : Nat) (pieces : List Text) :
    (locatePieces offset pieces).Pairwise fun a b => a.stop ≤ b.stop := by
  induction pieces generalizing offset with
  | nil => exact List.Pairwise.nil
  | cons piece pieces ih =>
    rw [locatePieces_cons, List.pairwise_append]
    refine ⟨?_, ih _, fun a here b later => ?_⟩
    · cases pieceStep? (offset == 0) piece with
      | none => exact List.Pairwise.nil
      | some step => exact List.pairwise_singleton _ _
    · obtain ⟨step, -, rfl⟩ := Option.map_eq_some_iff.mp (Option.mem_toList.mp here)
      have start := start_of_mem_locatePieces later
      have stop := stop_of_mem_locatePieces later
      simp only
      omega

/-- The steps of a path are spelled one after the other. -/
theorem pairwise_located (p : Path) : (located p).Pairwise fun a b => a.stop ≤ b.stop := by
  have body := pairwise_locatePieces 0 (p.splitOn '/')
  have split := located_eq p
  cases absolute : isAbsolute p with
  | false =>
    rw [absolute, if_neg (by simp), List.nil_append] at split
    rwa [split]
  | true =>
    rw [absolute, if_pos rfl, List.singleton_append] at split
    rw [split, List.pairwise_cons]
    refine ⟨fun place later => ?_, body⟩
    have start := start_pos split later
    have stop := stop_of_mem_locatePieces later
    simp only
    omega

theorem isAbsolute_iff_head? : p.isAbsolute = true ↔ p.steps.head? = some .root := by
  obtain ⟨rest, moving, start⟩ := steps_cases p
  have within : rest.head? ≠ some .root := by
    intro first
    obtain up | ⟨name, entry⟩ := moving _ (List.mem_of_head? first)
    · cases up
    · cases entry
  obtain ⟨absolute, equal⟩ | ⟨relative, equal | equal⟩ := start
  · simp [absolute, equal]
  · simp [relative, equal, within]
  · simp [relative, equal]

theorem isAbsolute_congr (same : p.steps.head? = q.steps.head?) : p.isAbsolute = q.isAbsolute := by
  rw [Bool.eq_iff_iff, isAbsolute_iff_head?, isAbsolute_iff_head?, same]

/-- Where a path can lead up to: nowhere from the root or from no step at all, and else to the path cut
before its last step. -/
theorem parent?_cases (p : Path) :
    p.parent? = none ∧ (p.steps = [] ∨ p.steps = [.root]) ∨
      ∃ q front last, p.parent? = some q ∧ located p = front ++ [last] ∧ last.step ≠ .root ∧
        q = ((front.getLast?.map fun place => p.take place.stop).getD []) ∧ located q = front := by
  rcases List.eq_nil_or_concat (located p) with empty | ⟨front, last, split⟩
  · exact .inl ⟨by rw [parent?, empty]; rfl, .inl (by rw [steps, empty]; rfl)⟩
  · rw [List.concat_eq_append] at split
    by_cases root : last.step = .root
    · have only : front = [] := by
        have inside := root_not_mem_tail p
        rw [steps, split] at inside
        cases front with
        | nil => rfl
        | cons first front => simp [root] at inside
      subst only
      obtain ⟨step, start, stop⟩ := last
      obtain rfl : step = .root := root
      exact .inl ⟨by rw [parent?, split]; rfl, .inr (by rw [steps, split]; rfl)⟩
    · have parent : p.parent? = some ((front.getLast?.map fun place => p.take place.stop).getD []) := by
        obtain ⟨step, start, stop⟩ := last
        unfold parent?
        rw [split, List.getLast?_concat, List.dropLast_concat]
        cases step with
        | root => exact absurd rfl root
        | _ => cases front.getLast? <;> rfl
      refine .inr ⟨_, front, last, parent, split, root, rfl, ?_⟩
      rcases List.eq_nil_or_concat front with rfl | ⟨before, place, rfl⟩
      · rfl
      · rw [List.concat_eq_append] at *
        rw [List.getLast?_concat, Option.map_some, Option.getD_some]
        exact located_take (split.trans (List.append_assoc _ _ _))

theorem steps_of_parent? (above : p.parent? = some q) :
    ∃ last, last ≠ .root ∧ p.steps = q.steps ++ [last] := by
  rcases parent?_cases p with ⟨top, -⟩ | ⟨q', front, last, found, split, below, -, cut⟩
  · rw [top] at above
    cases above
  · obtain rfl := Option.some.inj (found.symm.trans above)
    exact ⟨last.step, below, by simp [steps, split, cut]⟩

/-- The list of ancestors goes up directory by directory. -/
theorem ancestors_eq (p : Path) : p.ancestors = p :: (p.parent?.map ancestors).getD [] := by
  rcases parent?_cases p with ⟨top, single⟩ | ⟨q, front, last, found, split, below, equal, cut⟩
  · rw [top]
    rcases single with empty | root
    · have places : located p = [] := List.map_eq_nil_iff.mp empty
      simp [ancestors, places]
    · have absolute : p.isAbsolute = true := isAbsolute_iff_head?.mpr (by rw [root]; rfl)
      obtain ⟨place, places, -⟩ := List.map_eq_singleton_iff.mp root
      simp [ancestors, places, absolute]
  · rw [found, Option.map_some, Option.getD_some]
    rcases List.eq_nil_or_concat front with rfl | ⟨before, place, rfl⟩
    · -- The only step is no root, so the path starts from the current directory.
      have relative : p.isAbsolute = false := by
        rw [← Bool.not_eq_true, isAbsolute_iff_head?, steps, split]
        simpa using below
      obtain rfl : q = [] := equal
      have whole : p.ancestors = [p, []] := by simp [ancestors, split, relative]
      exact whole
    · rw [List.concat_eq_append] at *
      rw [List.getLast?_concat, Option.map_some, Option.getD_some] at equal
      have absolute : q.isAbsolute = p.isAbsolute := by
        refine isAbsolute_congr ?_
        rw [steps, steps, cut, split]
        simp
      -- Cutting the directory again is cutting the path.
      have again : before.reverse.map (fun x => p.take x.stop) =
          before.reverse.map fun x => q.take x.stop := by
        refine List.map_congr_left fun x inside => ?_
        have ordered := pairwise_located q
        rw [cut, List.pairwise_append] at ordered
        have sooner : x.stop ≤ place.stop :=
          ordered.2.2 x (List.mem_reverse.mp inside) place (List.mem_singleton_self _)
        rw [equal, List.take_take, Nat.min_eq_left sooner]
      unfold ancestors
      simp only [split, cut, absolute, List.dropLast_concat, List.reverse_append, List.reverse_singleton,
        List.singleton_append, List.map_cons, ← equal, again]
      simp

/-- Going up from a path comes to its ancestors one by one, and ends behind the last of them. -/
theorem getElem?_ancestors (p : Path) (levels : Nat) : p.ancestors[levels]? = p.above? levels := by
  induction levels generalizing p with
  | zero =>
    rw [ancestors_eq]
    rfl
  | succ levels ih =>
    rw [ancestors_eq, List.getElem?_cons_succ, above?]
    cases p.parent? with
    | none => rfl
    | some q => exact ih q

/-! ## How far up a path leads -/

/-- How many levels a path leads up: one for each of its steps but the root. -/
def height (p : Path) : Nat := (p.steps.filter (· ≠ .root)).length

theorem isSome_above?_iff (levels : Nat) (p : Path) : (p.above? levels).isSome ↔ levels ≤ p.height := by
  induction levels generalizing p with
  | zero => simp [above?]
  | succ levels ih =>
    rw [above?]
    cases parent : p.parent? with
    | none =>
      rcases parent?_cases p with ⟨-, empty | root⟩ | ⟨q, _, _, found, -⟩
      · simp [height, empty]
      · simp [height, root]
      · rw [parent] at found
        cases found
    | some q =>
      obtain ⟨last, below, split⟩ := steps_of_parent? parent
      rw [Option.bind_some, ih, height, height, split]
      simp [below]

/-- The directory some levels above a path lacks as many of its steps at the end. -/
theorem steps_above? {levels : Nat} (above : p.above? levels = some q) :
    q.steps = p.steps.take (p.steps.length - levels) := by
  induction levels generalizing p with
  | zero =>
    obtain rfl := Option.some.inj above
    simp
  | succ levels ih =>
    obtain ⟨parent, found, further⟩ := Option.bind_eq_some_iff.mp above
    obtain ⟨last, -, split⟩ := steps_of_parent? found
    rw [ih further, split, List.length_append, List.length_singleton, Nat.add_sub_add_right,
      List.take_append_of_le_length (Nat.sub_le _ _)]

end Path

namespace Config

variable {d : Disk}

/-- The first of some elements with a property, behind elements with another one, is the head or comes
behind it. -/
theorem exists_first_cons {α : Type} {p q : α → Prop} {first : α} {rest : List α} :
    (∃ (n : Nat) (a : α), (first :: rest)[n]? = some a ∧ p a ∧
        ∀ m < n, ∀ b, (first :: rest)[m]? = some b → q b) ↔
      p first ∨ q first ∧ ∃ (n : Nat) (a : α), rest[n]? = some a ∧ p a ∧
        ∀ m < n, ∀ b, rest[m]? = some b → q b := by
  constructor
  · rintro ⟨n, a, listed, holds, passed⟩
    cases n with
    | zero =>
      obtain rfl := Option.some.inj listed
      exact .inl holds
    | succ n =>
      refine .inr ⟨passed 0 (Nat.succ_pos n) first rfl, n, a, listed, holds, ?_⟩
      exact fun m before b there => passed (m + 1) (Nat.succ_lt_succ before) b there
  · rintro (holds | ⟨head, n, a, listed, holds, passed⟩)
    · exact ⟨0, first, rfl, holds, fun m before => absurd before (Nat.not_lt_zero m)⟩
    · refine ⟨n + 1, a, listed, holds, fun m before b there => ?_⟩
      cases m with
      | zero =>
        obtain rfl := Option.some.inj there
        exact head
      | succ m => exact passed m (Nat.lt_of_succ_lt_succ before) b there

/-- The search through directories finds the first one with a configuration, if no mark comes before. -/
theorem discoverIn_eq_some_iff {dirs : List Path} {found : Path} :
    discoverIn d dirs = some found ↔ ∃ (n : Nat) (dir : Path), dirs[n]? = some dir ∧
      (found = dir.join fileName ∧ d.contains found = true) ∧
      ∀ m < n, ∀ below : Path, dirs[m]? = some below →
        d.contains (below.join fileName) = false ∧ d.contains (below.join repositoryMark) = false := by
  induction dirs with
  | nil => simp [discoverIn]
  | cons first rest ih =>
    rw [exists_first_cons, ← ih, discoverIn]
    -- A directory without a configuration is passed, unless it holds the mark.
    by_cases here : d.contains (first.join fileName) = true
    · rw [if_pos here, Option.some.injEq]
      constructor
      · rintro rfl
        exact .inl ⟨rfl, here⟩
      · rintro (⟨rfl, -⟩ | ⟨⟨passed, -⟩, -⟩)
        · rfl
        · exact absurd here (by simp [passed])
    · have elsewhere : ¬ (found = first.join fileName ∧ d.contains found = true) := by
        rintro ⟨rfl, there⟩
        exact here there
      rw [if_neg here, or_iff_right elsewhere]
      by_cases mark : d.contains (first.join repositoryMark) = true
      · simp [mark]
      · simp [here, mark]

/-- The nearest configuration counts, and none beyond a repository. Going up from the start ends after as
many levels as its path has steps below the root, each level one step less. A configuration is found exactly
if some directory on the way holds it, and none before that directory holds a configuration or the mark of a
repository; it is then the one in that directory. -/
theorem discover_nearest (d : Disk) (start : Path) :
    (∀ levels, (start.above? levels).isSome ↔ levels ≤ (start.steps.filter (· ≠ .root)).length) ∧
      (∀ levels dir, start.above? levels = some dir →
        dir.steps = start.steps.take (start.steps.length - levels)) ∧
      ∀ found, discover d start = some found ↔ ∃ levels dir, start.above? levels = some dir ∧
        found = dir.join ".skiverrc.json" ∧ d.contains found = true ∧
        ∀ fewer < levels, ∀ below, start.above? fewer = some below →
          d.contains (below.join ".skiverrc.json") = false ∧ d.contains (below.join ".git") = false := by
  refine ⟨fun levels => Path.isSome_above?_iff levels start, fun levels dir => Path.steps_above?, ?_⟩
  intro found
  rw [discover, discoverIn_eq_some_iff]
  simp only [Path.getElem?_ancestors, and_assoc]
  rfl

end Config

end KeyGloss
