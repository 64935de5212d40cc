import KeyGloss.Path
import KeyGloss.Proofs.Text

/-!
# The steps of a path

What the steps are when a name is written behind a path (`located_append`, `join_eq_append`), when a path
is cut after one of its steps (`located_take`), and so for its directory and for the path without its
extension. What is left below another path is always shorter (`length_below?_lt`). Only the first step can
be the root or the current directory (`steps_cases`), and a path without its extension starts as
before (`isAbsolute_withoutExtension`).
-/

namespace KeyGloss

namespace Path

/-- What a name may be written behind: nothing, or a text that ends in a separator. -/
def Opens (u : Path) : Prop := u = [] ∨ ∃ v, u = v ++ ['/']

theorem pieceStep?_eq_entry {name : Text} (first : Bool) (notEmpty : name ≠ []) (notHere : name ≠ ['.'])
    (notUp : name ≠ ['.', '.']) : pieceStep? first name = some (.entry name) := by
  unfold pieceStep?
  split <;> simp_all

theorem isAbsolute_eq_false {name : Text} (plain : '/' ∉ name) : isAbsolute name = false := by
  cases name with
  | nil => rfl
  | cons c name => simpa [isAbsolute] using fun same : c = '/' => plain (by simp [same])

theorem locatePieces_cons (offset : Nat) (piece : Text) (pieces : List Text) :
    locatePieces offset (piece :: pieces) =
      ((pieceStep? (offset == 0) piece).map fun step =>
        (⟨step, offset, offset + piece.length⟩ : Located)).toList ++
        locatePieces (offset + piece.length + 1) pieces := by
  rw [locatePieces]
  cases pieceStep? (offset == 0) piece <;> rfl

theorem locatePieces_concat (offset : Nat) {pieces : List Text} (notEmpty : pieces ≠ []) (last : Text) :
    locatePieces offset (pieces ++ [last]) = locatePieces offset pieces ++
      locatePieces (offset + (Text.join ['/'] pieces).length + 1) [last] := by
  induction pieces generalizing offset with
  | nil => exact absurd rfl notEmpty
  | cons piece pieces ih =>
    by_cases more : pieces = []
    · subst more
      have nothing (n : Nat) : locatePieces n [] = [] := rfl
      rw [List.singleton_append, locatePieces_cons offset, locatePieces_cons offset, nothing,
        List.append_nil, Text.join, List.intercalate_singleton]
    · have length : offset + (Text.join ['/'] (piece :: pieces)).length + 1 =
          offset + piece.length + 1 + (Text.join ['/'] pieces).length + 1 := by
        rw [Text.join_cons piece more]
        simp only [List.length_append, List.length_singleton]
        omega
      rw [List.cons_append, locatePieces_cons offset, ih _ more, locatePieces_cons offset, length,
        List.append_assoc]

theorem located_eq (p : Path) :
    located p = (if isAbsolute p then [⟨.root, 0, 1⟩] else []) ++ locatePieces 0 (p.splitOn '/') := by
  unfold located
  split <;> rfl

theorem steps_of_located {p q : Path} (same : located p = located q) : p.steps = q.steps := by
  rw [steps, steps, same]

/-- A separator at the end names nothing. -/
theorem located_separator {p : Path} (notEmpty : p ≠ []) : located (p ++ ['/']) = located p := by
  have absolute : isAbsolute (p ++ ['/']) = isAbsolute p := by
    obtain ⟨c, p, rfl⟩ := List.exists_cons_of_ne_nil notEmpty
    rfl
  rw [located_eq, located_eq, absolute, List.splitOn_append_cons_self, List.splitOn_nil,
    locatePieces_concat 0 (List.splitOn_ne_nil _ _)]
  simp [locatePieces, pieceStep?]

/-- A piece written behind a path adds the step that it stands for. -/
theorem located_append {u piece : Text} {step : Step} (opens : Opens u) (plain : '/' ∉ piece)
    (stands : pieceStep? (u.length == 0) piece = some step) :
    located (u ++ piece) = located u ++ [⟨step, u.length, u.length + piece.length⟩] := by
  rcases opens with rfl | ⟨v, rfl⟩
  · rw [List.length_nil] at stands
    rw [List.nil_append, located_eq, isAbsolute_eq_false plain, List.splitOn_eq_singleton plain,
      locatePieces_cons, stands]
    simp [located, isAbsolute, locatePieces, pieceStep?]
  · have absolute : isAbsolute (v ++ ['/'] ++ piece) = isAbsolute (v ++ ['/']) := by
      cases v <;> rfl
    have split : v ++ ['/'] ++ piece = v ++ '/' :: piece := by simp
    have position : 0 + v.length + 1 = (v ++ ['/']).length := by simp
    have pieces (last : Text) : locatePieces 0 (v.splitOn '/' ++ [last]) =
        locatePieces 0 (v.splitOn '/') ++ locatePieces (v ++ ['/']).length [last] := by
      rw [locatePieces_concat 0 (List.splitOn_ne_nil _ _), Text.join_splitOn, position]
    rw [located_eq, located_eq, absolute, split, List.splitOn_append_cons_self,
      List.splitOn_append_cons_self, List.splitOn_eq_singleton plain, List.splitOn_nil, pieces,
      pieces, locatePieces_cons, locatePieces_cons, stands]
    simp [locatePieces, pieceStep?]

theorem steps_append {u piece : Text} {step : Step} (opens : Opens u) (plain : '/' ∉ piece)
    (stands : pieceStep? (u.length == 0) piece = some step) :
    Path.steps (u ++ piece) = Path.steps u ++ [step] := by
  simp [steps, located_append opens plain stands]

/-- A path below another one is spelled by it, a separator where one is missing, and a name. -/
theorem join_eq_append (p : Path) {name : Text} (plain : '/' ∉ name) :
    ∃ u : Path, Opens u ∧ p.join name = u ++ name ∧ u.steps = p.steps := by
  unfold join
  rw [isAbsolute_eq_false plain, if_neg (by simp)]
  split
  · next ends =>
    refine ⟨p, ?_, rfl, rfl⟩
    rcases List.eq_nil_or_concat p with rfl | ⟨v, c, rfl⟩
    · exact .inl rfl
    · exact .inr ⟨v, by simpa using ends⟩
  · next open_ =>
    have notEmpty : p ≠ [] := by
      rintro rfl
      simp at open_
    exact ⟨p ++ ['/'], .inr ⟨p, rfl⟩, by simp, steps_of_located (located_separator notEmpty)⟩

/-- A path that is cut after one of its pieces has the steps up to there. -/
theorem locatePieces_take (offset : Nat) {pieces : List Text} (plain : ∀ piece ∈ pieces, '/' ∉ piece)
    {before after : List Located} {place : Located}
    (split : locatePieces offset pieces = before ++ place :: after) :
    offset < place.stop ∧ locatePieces offset
      (((Text.join ['/'] pieces).take (place.stop - offset)).splitOn '/') = before ++ [place] := by
  induction pieces generalizing offset before with
  | nil => simp [locatePieces] at split
  | cons piece pieces ih =>
    obtain ⟨here, later⟩ := List.forall_mem_cons.mp plain
    -- The place is that of the first piece, or it comes later.
    have cases : (∃ step, pieceStep? (offset == 0) piece = some step ∧ before = [] ∧
          place = ⟨step, offset, offset + piece.length⟩) ∨
        ∃ rest, locatePieces (offset + piece.length + 1) pieces = rest ++ place :: after ∧
          before = ((pieceStep? (offset == 0) piece).map fun step =>
            (⟨step, offset, offset + piece.length⟩ : Located)).toList ++ rest := by
      rw [locatePieces_cons] at split
      cases first : pieceStep? (offset == 0) piece with
      | none =>
        rw [first] at split
        exact .inr ⟨before, split, rfl⟩
      | some step =>
        rw [first] at split
        cases before with
        | nil => exact .inl ⟨step, rfl, rfl, (List.cons.inj split).1.symm⟩
        | cons located before =>
          obtain ⟨rfl, rest⟩ := List.cons.inj split
          exact .inr ⟨before, rest, rfl⟩
    rcases cases with ⟨step, stands, rfl, rfl⟩ | ⟨rest, tail, rfl⟩
    · have positive : 0 < piece.length := by
        cases piece with
        | nil => simp [pieceStep?] at stands
        | cons c piece => simp
      have front : (Text.join ['/'] (piece :: pieces)).take piece.length = piece := by
        by_cases more : pieces = []
        · simp [more, Text.join]
        · rw [Text.join_cons piece more, List.take_left]
      refine ⟨by simp only; omega, ?_⟩
      simp only [Nat.add_sub_cancel_left, front]
      rw [List.splitOn_eq_singleton here, locatePieces_cons, stands]
      rfl
    · obtain ⟨further, equal⟩ := ih _ later tail
      have more : pieces ≠ [] := by
        rintro rfl
        simp [locatePieces] at tail
      have beyond : place.stop - offset =
          piece.length + (1 + (place.stop - (offset + piece.length + 1))) := by omega
      refine ⟨by omega, ?_⟩
      rw [Text.join_cons piece more, beyond, List.take_length_add_append, List.singleton_append,
        Nat.add_comm 1, List.take_succ_cons, List.splitOn_append_cons_self,
        List.splitOn_eq_singleton here, List.singleton_append, locatePieces_cons, equal,
        List.append_assoc]

theorem located_take {p : Path} {before after : List Located} {place : Located}
    (split : located p = before ++ place :: after) :
    located (p.take place.stop) = before ++ [place] := by
  have body : ∀ {front}, locatePieces 0 (p.splitOn '/') = front ++ place :: after →
      0 < place.stop ∧ locatePieces 0 ((p.take place.stop).splitOn '/') = front ++ [place] := by
    intro front equal
    have cut := locatePieces_take 0 (fun piece => Text.not_mem_of_mem_splitOn) equal
    rwa [Text.join_splitOn, Nat.sub_zero] at cut
  have absolute : 0 < place.stop → isAbsolute (p.take place.stop) = isAbsolute p := by
    intro positive
    obtain ⟨n, equal⟩ := Nat.exists_eq_add_of_lt positive
    rw [equal]
    cases p <;> simp [isAbsolute]
  rw [located_eq] at split ⊢
  cases anchored : isAbsolute p with
  | false =>
    rw [anchored] at split
    obtain ⟨positive, equal⟩ := body split
    rw [absolute positive, anchored, equal]
    rfl
  | true =>
    rw [anchored, if_pos rfl] at split
    cases before with
    | nil =>
      -- The root alone is left.
      obtain ⟨rfl, -⟩ := List.cons.inj split
      obtain ⟨c, q, rfl⟩ : ∃ c q, p = c :: q := by
        cases p with
        | nil => cases anchored
        | cons c q => exact ⟨c, q, rfl⟩
      obtain rfl : c = '/' := by simpa [isAbsolute] using anchored
      rfl
    | cons root before =>
      obtain ⟨rfl, tail⟩ := List.cons.inj split
      obtain ⟨positive, equal⟩ := body tail
      rw [absolute positive, anchored, equal]
      rfl

/-- The directory of a path has all its steps but the last. -/
theorem steps_parent {p : Path} {steps : List Step} {last : Step} (split : p.steps = steps ++ [last])
    (below : last ≠ .root) : (p.parent?.getD []).steps = steps := by
  obtain ⟨places, tail, whole, rfl, end_⟩ := List.map_eq_append_iff.mp split
  obtain ⟨place, rfl, rfl⟩ := List.map_eq_singleton_iff.mp end_
  obtain ⟨step, start, stop⟩ := place
  have parent : p.parent?.getD [] = (places.getLast?.map fun place => p.take place.stop).getD [] := by
    unfold parent?
    rw [whole, List.getLast?_concat, List.dropLast_concat]
    cases step with
    | root => exact absurd rfl below
    | _ => cases places.getLast? <;> rfl
  rw [parent]
  rcases List.eq_nil_or_concat places with rfl | ⟨before, place, rfl⟩
  · rfl
  · rw [List.concat_eq_append] at *
    have shape : p.located = before ++ place :: [⟨step, start, stop⟩] := by simp [whole]
    have cut := located_take shape
    rw [List.getLast?_concat, Option.map_some, Option.getD_some, Path.steps, cut]

section Extension

theorem splitName_of_not_mem {name : Text} (bare : '.' ∉ name) : splitName name = (name, none) := by
  simp [splitName, Text.afterLast_eq_self bare]

theorem splitName_append {stem extension : Text} (front : stem ≠ []) (plain : '.' ∉ extension) :
    splitName (stem ++ '.' :: extension) = (stem, some extension) := by
  have length : (stem ++ '.' :: extension).length - extension.length - 1 = stem.length := by
    simp only [List.length_append, List.length_cons]
    omega
  unfold splitName
  simp only [Text.afterLast_append stem plain, length, List.take_left]
  simp [front]

theorem splitName_of_leading_dot {extension : Text} (plain : '.' ∉ extension) :
    splitName ('.' :: extension) = ('.' :: extension, none) := by
  have last := Text.afterLast_append (c := '.') [] plain
  rw [List.nil_append] at last
  simp [splitName, last]

/-- A name is cut into a stem and an extension where its last dot is. -/
theorem splitName_eq_some {name stem extension : Text} (plain : '.' ∉ extension) :
    splitName name = (stem, some extension) ↔ stem ≠ [] ∧ name = stem ++ '.' :: extension := by
  refine ⟨fun split => ?_, fun ⟨front, spelled⟩ => spelled ▸ splitName_append front plain⟩
  by_cases dotted : '.' ∈ name
  · obtain ⟨front, last, rfl, single⟩ := Text.exists_last dotted
    by_cases empty : front = []
    · subst empty
      cases (splitName_of_leading_dot single).symm.trans split
    · obtain ⟨rfl, equal⟩ := Prod.mk.inj ((splitName_append empty single).symm.trans split)
      exact ⟨empty, by rw [Option.some.inj equal]⟩
  · cases (splitName_of_not_mem dotted).symm.trans split

variable {u : Path}

/-- A name without an extension is kept. -/
theorem withoutExtension_of_bare {name : Text} (opens : Opens u) (plain : '/' ∉ name)
    (named : pieceStep? (u.length == 0) name = some (.entry name))
    (bare : splitName name = (name, none)) : withoutExtension (u ++ name) = u ++ name := by
  have whole := located_append opens plain named
  have fileName : fileName? (u ++ name) = some name := by
    simp [fileName?, Path.steps, whole]
  unfold withoutExtension
  rw [extension?, fileName, Option.bind_some, bare]
  simp only [cutAfterStem, whole, List.getLast?_concat, bare]
  rw [← List.length_append, List.take_length]

/-- First the extension goes, and the dot before it stays. -/
theorem withoutExtension_append {stem extension : Text} (opens : Opens u)
    (plain : '/' ∉ stem ++ '.' :: extension)
    (named : pieceStep? (u.length == 0) (stem ++ '.' :: extension) =
      some (.entry (stem ++ '.' :: extension)))
    (front : stem ≠ []) (last : '.' ∉ extension) :
    withoutExtension (u ++ (stem ++ '.' :: extension)) = cutAfterStem (u ++ (stem ++ ['.'])) := by
  have fileName : fileName? (u ++ (stem ++ '.' :: extension)) = some (stem ++ '.' :: extension) := by
    simp [fileName?, Path.steps, located_append opens plain named]
  have cut : (u ++ (stem ++ '.' :: extension)).take
      ((u ++ (stem ++ '.' :: extension)).length - extension.length) = u ++ (stem ++ ['.']) := by
    have split : u ++ (stem ++ '.' :: extension) = u ++ (stem ++ ['.']) ++ extension := by simp
    rw [split, List.length_append, Nat.add_sub_cancel, List.take_left]
  unfold withoutExtension
  rw [extension?, fileName, Option.bind_some, splitName_append front last]
  simp only [cut]

/-- Then the dot goes. -/
theorem cutAfterStem_dot {stem : Text} (opens : Opens u) (plain : '/' ∉ stem) (front : stem ≠ [])
    (single : stem ≠ ['.']) : cutAfterStem (u ++ (stem ++ ['.'])) = u ++ stem := by
  have named : pieceStep? (u.length == 0) (stem ++ ['.']) = some (.entry (stem ++ ['.'])) := by
    refine pieceStep?_eq_entry _ (by simp) (by simpa using front) fun same => ?_
    exact single ((List.append_inj' (same : stem ++ ['.'] = ['.'] ++ ['.']) rfl).1)
  have left := located_append opens (by simpa using plain : '/' ∉ stem ++ ['.']) named
  simp only [cutAfterStem, left, List.getLast?_concat,
    splitName_append front (List.not_mem_nil : '.' ∉ [])]
  rw [← List.append_assoc, ← List.length_append, List.take_left]

/-- Two dots are no name, and both stay. -/
theorem cutAfterStem_up (opens : Opens u) : cutAfterStem (u ++ ['.', '.']) = u ++ ['.', '.'] := by
  have up : pieceStep? (u.length == 0) ['.', '.'] = some .up := rfl
  have left := located_append opens (by simp) up
  simp only [cutAfterStem, left, List.getLast?_concat]

/-- The path without its extension ends in a name or in a step to the parent directory, where the
file name was. -/
theorem steps_withoutExtension {name : Text} (opens : Opens u) (plain : '/' ∉ name)
    (named : pieceStep? (u.length == 0) name = some (.entry name)) :
    ∃ step, (step = .up ∨ ∃ stem, step = .entry stem) ∧
      Path.steps (withoutExtension (u ++ name)) = Path.steps u ++ [step] := by
  have kept : splitName name = (name, none) → ∃ step, (step = .up ∨ ∃ stem, step = .entry stem) ∧
      Path.steps (withoutExtension (u ++ name)) = Path.steps u ++ [step] := by
    intro bare
    refine ⟨.entry name, .inr ⟨name, rfl⟩, ?_⟩
    rw [withoutExtension_of_bare opens plain named bare, steps_append opens plain named]
  by_cases dotted : '.' ∈ name
  · obtain ⟨stem, extension, rfl, last⟩ := Text.exists_last dotted
    by_cases front : stem = []
    · subst front
      exact kept (splitName_of_leading_dot last)
    · have short : '/' ∉ stem := fun slash => plain (List.mem_append_left _ slash)
      rw [withoutExtension_append opens plain named front last]
      by_cases single : stem = ['.']
      · subst single
        refine ⟨.up, .inl rfl, ?_⟩
        rw [List.singleton_append, cutAfterStem_up opens, steps_append opens (by simp) rfl]
      · rw [cutAfterStem_dot opens short front single]
        by_cases up : stem = ['.', '.']
        · subst up
          exact ⟨.up, .inl rfl, steps_append opens short rfl⟩
        · exact ⟨.entry stem, .inr ⟨stem, rfl⟩,
            steps_append opens short (pieceStep?_eq_entry _ front single up)⟩
  · exact kept (splitName_of_not_mem dotted)

end Extension

/-! ## What is left below a path -/

theorem start_of_mem_locatePieces {offset : Nat} {pieces : List Text} {place : Located}
    (member : place ∈ locatePieces offset pieces) : offset ≤ place.start := by
  induction pieces generalizing offset with
  | nil => simp [locatePieces] at member
  | cons piece pieces ih =>
    rw [locatePieces_cons, List.mem_append] at member
    rcases member with here | later
    · obtain ⟨step, -, rfl⟩ := Option.map_eq_some_iff.mp (Option.mem_toList.mp here)
      exact Nat.le_refl _
    · have after := ih later
      omega

/-- Only the first step of a path is spelled at its start. -/
theorem start_pos {p : Path} {first place : Located} {rest : List Located}
    (split : located p = first :: rest) (member : place ∈ rest) : 0 < place.start := by
  have later : ∀ {offset pieces}, 0 < offset → place ∈ locatePieces offset pieces → 0 < place.start :=
    fun positive inside => Nat.lt_of_lt_of_le positive (start_of_mem_locatePieces inside)
  rw [located_eq] at split
  cases anchored : isAbsolute p with
  | true =>
    obtain ⟨q, rfl⟩ : ∃ q, p = '/' :: q := by
      cases p with
      | nil => cases anchored
      | cons c q => exact ⟨q, by rw [show c = '/' by simpa [isAbsolute] using anchored]⟩
    rw [anchored, if_pos rfl, List.splitOn_cons_eq_if_modifyHead, if_pos (by simp), locatePieces_cons]
      at split
    obtain ⟨-, rfl⟩ := List.cons.inj split
    exact later (by simp) member
  | false =>
    obtain ⟨piece, pieces, parts⟩ := List.exists_cons_of_ne_nil (List.splitOn_ne_nil '/' p)
    rw [anchored, parts, locatePieces_cons] at split
    cases stands : pieceStep? (0 == 0) piece with
    | none =>
      rw [stands] at split
      exact later (by simp) (split ▸ List.mem_cons_of_mem _ member)
    | some step =>
      rw [stands] at split
      obtain ⟨-, rfl⟩ := List.cons.inj split
      exact later (by simp) member

/-- A path that is spelled at all has a step. -/
theorem located_ne_nil {p : Path} (notEmpty : p ≠ []) : located p ≠ [] := by
  obtain ⟨c, q, rfl⟩ := List.exists_cons_of_ne_nil notEmpty
  rw [located_eq]
  by_cases separator : c = '/'
  · simp [isAbsolute, separator]
  · -- The first piece starts with `c` and stands for a step.
    obtain ⟨piece, pieces, parts⟩ := List.exists_cons_of_ne_nil (List.splitOn_ne_nil '/' q)
    have split : List.splitOn '/' (c :: q) = (c :: piece) :: pieces := by
      rw [List.splitOn_cons_eq_if_modifyHead, if_neg (by simpa using separator), parts,
        List.modifyHead_cons]
    rw [split, locatePieces_cons]
    have stands : pieceStep? true (c :: piece) ≠ none := by
      unfold pieceStep?
      split <;> simp_all
    simp [stands]

theorem spelled_length_lt {p : Path} {places : List Located} (notEmpty : p ≠ [])
    (later : ∀ place ∈ places, 0 < place.start) : (spelled p places).length < p.length := by
  have positive := List.length_pos_iff.mpr notEmpty
  unfold spelled
  split
  · next first last head _ =>
    have behind := later first (List.mem_of_head? head)
    simp only [List.length_drop, List.length_take]
    omega
  · exact positive

/-- What is left below a path is shorter. -/
theorem length_below?_lt {p base rest : Path} (notEmpty : base ≠ []) (left : below? p base = some rest) :
    rest.length < p.length := by
  unfold below? at left
  split at left
  · next starts =>
    obtain rfl := Option.some.inj left
    have covered : base.steps <+: p.steps := List.isPrefixOf_iff_prefix.mp starts
    have within := covered.length_le
    have more : (located base).length ≠ 0 :=
      fun empty => located_ne_nil notEmpty (List.length_eq_zero_iff.mp empty)
    simp only [Path.steps, List.length_map] at within ⊢
    cases whole : located p with
    | nil =>
      rw [whole, List.length_nil] at within
      omega
    | cons first others =>
      refine spelled_length_lt ?_ fun place member => start_pos whole ?_
      · rintro rfl
        cases whole
      · obtain ⟨n, equal⟩ := Nat.exists_eq_succ_of_ne_zero more
        rw [equal, List.drop_succ_cons] at member
        exact List.mem_of_mem_drop member
  · cases left

/-! ## The start and the names of a path -/

theorem pieceStep?_cases {first : Bool} {piece : Text} {step : Step}
    (stands : pieceStep? first piece = some step) :
    first = true ∧ step = .here ∨ step = .up ∨
      step = .entry piece ∧ piece ≠ [] ∧ piece ≠ ['.'] ∧ piece ≠ ['.', '.'] := by
  unfold pieceStep? at stands
  split at stands
  · cases stands
  · split at stands
    · next starts => exact .inl ⟨starts, (Option.some.inj stands).symm⟩
    · cases stands
  · exact .inr (.inl (Option.some.inj stands).symm)
  · next notEmpty notHere notUp =>
    exact .inr (.inr ⟨(Option.some.inj stands).symm, notEmpty, notHere, notUp⟩)

theorem mem_locatePieces {offset : Nat} {pieces : List Text} {place : Located}
    (member : place ∈ locatePieces offset pieces) :
    ∃ piece ∈ pieces, pieceStep? (place.start == 0) piece = some place.step := by
  induction pieces generalizing offset with
  | nil => simp [locatePieces] at member
  | cons piece pieces ih =>
    rw [locatePieces_cons, List.mem_append] at member
    rcases member with here | later
    · obtain ⟨step, stands, rfl⟩ := Option.map_eq_some_iff.mp (Option.mem_toList.mp here)
      exact ⟨piece, List.mem_cons_self, stands⟩
    · obtain ⟨other, listed, stands⟩ := ih later
      exact ⟨other, List.mem_cons_of_mem _ listed, stands⟩

/-- The names in a path are those that an entry can have, and lie within the path. -/
theorem name_of_mem_steps {p : Path} {name : Text} (member : .entry name ∈ p.steps) :
    (name ≠ [] ∧ name ≠ ['.'] ∧ name ≠ ['.', '.']) ∧ '/' ∉ name ∧ name.length ≤ p.length := by
  obtain ⟨place, located, equal⟩ := List.mem_map.mp member
  rw [located_eq, List.mem_append] at located
  rcases located with root | body
  · split at root
    · obtain rfl := List.mem_singleton.mp root
      cases equal
    · cases root
  · obtain ⟨piece, listed, stands⟩ := mem_locatePieces body
    rw [equal] at stands
    obtain ⟨-, here⟩ | up | ⟨same, valid⟩ := pieceStep?_cases stands
    · cases here
    · cases up
    · cases same
      exact ⟨valid, Text.not_mem_of_mem_splitOn listed, (Text.infix_of_mem_splitOn listed).length_le⟩

/-- Only the first step of a path can be the root, as it is in an absolute path, or the current
directory. -/
theorem steps_cases (p : Path) :
    ∃ rest, (∀ step ∈ rest, step = .up ∨ ∃ name, step = .entry name) ∧
      (p.isAbsolute = true ∧ p.steps = .root :: rest ∨
        p.isAbsolute = false ∧ (p.steps = rest ∨ p.steps = .here :: rest)) := by
  have body : ∀ place ∈ locatePieces 0 (p.splitOn '/'), place.start = 0 ∧ place.step = .here ∨
      (place.step = .up ∨ ∃ name, place.step = .entry name) := by
    intro place member
    obtain ⟨piece, -, stands⟩ := mem_locatePieces member
    obtain ⟨first, here⟩ | up | ⟨entry, -⟩ := pieceStep?_cases stands
    · exact .inl ⟨beq_iff_eq.mp first, here⟩
    · exact .inr (.inl up)
    · exact .inr (.inr ⟨piece, entry⟩)
  have later {first : Located} {others : List Located} (split : located p = first :: others)
      (inside : ∀ place ∈ others, place ∈ locatePieces 0 (p.splitOn '/')) :
      ∀ step ∈ others.map (·.step), step = .up ∨ ∃ name, step = .entry name := by
    rw [List.forall_mem_map]
    intro place member
    refine (body place (inside place member)).resolve_left fun start => ?_
    exact absurd start.1 (Nat.pos_iff_ne_zero.mp (start_pos split member))
  cases absolute : p.isAbsolute with
  | true =>
    have split := located_eq p
    rw [absolute, if_pos rfl, List.singleton_append] at split
    exact ⟨_, later split fun _ member => member, .inl ⟨rfl, by rw [steps, split, List.map_cons]⟩⟩
  | false =>
    have whole := located_eq p
    rw [absolute, if_neg (by simp), List.nil_append] at whole
    cases split : located p with
    | nil => exact ⟨[], by simp, .inr ⟨rfl, .inl (by rw [steps, split]; rfl)⟩⟩
    | cons first others =>
      rw [split] at whole
      have rest := later split fun place member => by
        rw [← whole]
        exact List.mem_cons_of_mem _ member
      rcases body first (whole ▸ List.mem_cons_self) with ⟨-, here⟩ | moves
      · exact ⟨_, rest, .inr ⟨rfl, .inr (by rw [steps, split, List.map_cons, here])⟩⟩
      · exact ⟨first.step :: others.map (·.step), List.forall_mem_cons.mpr ⟨moves, rest⟩,
          .inr ⟨rfl, .inl (by rw [steps, split, List.map_cons])⟩⟩

theorem root_not_mem_tail (p : Path) : .root ∉ p.steps.tail := by
  obtain ⟨rest, moving, start⟩ := steps_cases p
  have within : .root ∉ rest := by
    intro member
    obtain up | ⟨name, entry⟩ := moving _ member
    · cases up
    · cases entry
  obtain ⟨-, equal⟩ | ⟨-, equal | equal⟩ := start
  · rwa [equal]
  · rw [equal]
    exact fun member => within (List.mem_of_mem_tail member)
  · rwa [equal]

/-- The directory of a path has all steps but the last; a path without a directory counts as one in the
empty path. -/
theorem steps_parent_eq_dropLast (p : Path) : (p.parent?.getD []).steps = p.steps.dropLast := by
  rcases List.eq_nil_or_concat p.steps with noStep | ⟨front, last, split⟩
  · have empty : located p = [] := List.map_eq_nil_iff.mp noStep
    rw [noStep, parent?, empty]
    rfl
  · rw [List.concat_eq_append] at split
    by_cases below : last = .root
    · -- The root stands alone, and has no directory.
      subst below
      obtain rfl : front = [] := by
        cases front with
        | nil => rfl
        | cons first front =>
          have inside := root_not_mem_tail p
          rw [split] at inside
          simp at inside
      obtain ⟨⟨step, start, stop⟩, whole, rfl⟩ := List.map_eq_singleton_iff.mp split
      rw [split, parent?, whole]
      rfl
    · rw [steps_parent split below, split, List.dropLast_concat]

theorem splitName_fst_ne_nil {name : Text} (notEmpty : name ≠ []) : (splitName name).1 ≠ [] := by
  unfold splitName
  simp only
  split
  · exact notEmpty
  · next front => simpa using front

theorem length_lt_of_splitName {name extension : Text} (split : (splitName name).2 = some extension) :
    extension.length < name.length := by
  unfold splitName at split
  simp only at split
  split at split
  · cases split
  · next front =>
    obtain rfl := Option.some.inj split
    rw [List.isEmpty_iff, List.take_eq_nil_iff] at front
    omega

theorem mem_steps_of_fileName? {p : Path} {name : Text} (named : p.fileName? = some name) :
    .entry name ∈ p.steps := by
  unfold fileName? at named
  split at named
  · next last =>
    obtain rfl := Option.some.inj named
    exact List.mem_of_getLast? last
  · cases named

theorem prefix_of_cutAfterStem (p : Path) : cutAfterStem p <+: p := by
  unfold cutAfterStem
  split
  · exact List.take_prefix _ _
  · exact List.prefix_refl p

theorem cutAfterStem_ne_nil {p : Path} (notEmpty : p ≠ []) : cutAfterStem p ≠ [] := by
  unfold cutAfterStem
  split
  · next name start stop last =>
    have member : .entry name ∈ p.steps :=
      List.mem_map.mpr ⟨_, List.mem_of_getLast? last, rfl⟩
    have front := List.length_pos_iff.mpr (splitName_fst_ne_nil (name_of_mem_steps member).1.1)
    rw [Ne, List.take_eq_nil_iff]
    rintro (empty | empty)
    · omega
    · exact notEmpty empty
  · exact notEmpty

theorem prefix_of_withoutExtension (p : Path) : p.withoutExtension <+: p := by
  unfold withoutExtension
  split
  · exact (prefix_of_cutAfterStem _).trans (List.take_prefix _ _)
  · exact prefix_of_cutAfterStem p

theorem withoutExtension_ne_nil {p : Path} (notEmpty : p ≠ []) : p.withoutExtension ≠ [] := by
  unfold withoutExtension
  split
  · next extension found =>
    obtain ⟨name, named, split⟩ := Option.bind_eq_some_iff.mp found
    have within := (name_of_mem_steps (mem_steps_of_fileName? named)).2.2
    have shorter := length_lt_of_splitName split
    refine cutAfterStem_ne_nil ?_
    rw [Ne, List.take_eq_nil_iff]
    rintro (empty | empty)
    · omega
    · exact notEmpty empty
  · exact cutAfterStem_ne_nil notEmpty

/-- A path without its extension still starts in the same way. -/
theorem isAbsolute_withoutExtension (p : Path) : p.withoutExtension.isAbsolute = p.isAbsolute := by
  by_cases empty : p = []
  · subst empty
    rfl
  · obtain ⟨rest, whole⟩ := prefix_of_withoutExtension p
    obtain ⟨c, front, starts⟩ := List.exists_cons_of_ne_nil (withoutExtension_ne_nil empty)
    rw [starts] at whole ⊢
    rw [← whole]
    rfl

end Path

end KeyGloss
