import Mathlib.Data.List.DropRight
import Mathlib.Data.List.TakeWhile
import KeyGloss.Text.Basic

/-!
# Facts about texts

Lines and what follows them, the place where a text breaks, trimming, and the pieces between
separators.
-/

namespace KeyGloss

namespace Text

theorem takeWhile_append_stop {p : Char → Bool} (t x : Text) (stop : ∀ c ∈ x.head?, p c = false) :
    (t ++ x).takeWhile p = t.takeWhile p := by
  induction t with
  | nil =>
    cases x with
    | nil => rfl
    | cons c x => simp [stop c rfl]
  | cons c t ih => simp only [List.cons_append, List.takeWhile_cons, ih]

theorem dropWhile_append_stop {p : Char → Bool} (t x : Text) (stop : ∀ c ∈ x.head?, p c = false) :
    (t ++ x).dropWhile p = t.dropWhile p ++ x := by
  induction t with
  | nil =>
    cases x with
    | nil => rfl
    | cons c x => simp [stop c rfl]
  | cons c t ih =>
    simp only [List.cons_append, List.dropWhile_cons, ih]
    split <;> rfl

/-- The end of a source, or of a line of it. -/
def LineEnds (t : Text) : Prop := ∀ c ∈ t.head?, c = '\n'

theorem inside_line {x : Text} (single : '\n' ∉ x) : ∀ c ∈ x, (c != '\n') = true :=
  fun c member => by simpa using fun feed : c = '\n' => single (feed ▸ member)

theorem takeWhile_line {x t : Text} (single : '\n' ∉ x) (ends : LineEnds t) :
    (x ++ t).takeWhile (· != '\n') = x := by
  rw [takeWhile_append_stop x t fun c first => by simp [ends c first],
    List.takeWhile_eq_self_iff.mpr (inside_line single)]

theorem dropWhile_line {x t : Text} (single : '\n' ∉ x) (ends : LineEnds t) :
    (x ++ t).dropWhile (· != '\n') = t := by
  rw [dropWhile_append_stop x t fun c first => by simp [ends c first],
    List.dropWhile_eq_nil_iff.mpr (inside_line single), List.nil_append]

/-- No piece of a text holds the character that the text was cut at. -/
theorem not_mem_of_mem_splitOn {separator : Char} {t piece : Text}
    (listed : piece ∈ t.splitOn separator) : separator ∉ piece := by
  induction t generalizing piece with
  | nil => simp_all
  | cons c t ih =>
    obtain ⟨first, pieces, equal⟩ :=
      List.exists_cons_of_ne_nil (List.splitOn_ne_nil separator t)
    rw [equal] at ih
    rw [List.splitOn_cons_eq_if_modifyHead, equal] at listed
    by_cases cut : c = separator
    · rw [if_pos (by simp [cut])] at listed
      rcases List.mem_cons.mp listed with rfl | later
      · exact List.not_mem_nil
      · exact ih later
    · rw [if_neg (by simp [cut])] at listed
      rcases List.mem_cons.mp listed with rfl | later
      · simp [Ne.symm cut, ih List.mem_cons_self]
      · exact ih (List.mem_cons_of_mem first later)

theorem not_mem_flattenLines (t : Text) : '\n' ∉ flattenLines t := by
  fun_induction flattenLines t <;> simp_all [eq_comm]

/-- Flattening goes on after a text that no line feed follows. -/
theorem flattenLines_append (t u : Text) (other : ∀ c ∈ u.head?, c ≠ '\n') :
    flattenLines (t ++ u) = flattenLines t ++ flattenLines u := by
  fun_induction flattenLines t with
  | case1 => rfl
  | case2 r ih => simp [flattenLines, ih]
  | case3 r ih => simp [flattenLines, ih]
  | case4 c r notReturn notFeed ih =>
    have kept : flattenLines (c :: (r ++ u)) = c :: flattenLines (r ++ u) := by
      rw [flattenLines]
      · intro rest isReturn starts
        cases r with
        | nil => exact other '\n' (by simpa using congrArg List.head? starts) rfl
        | cons d r => exact notReturn r isReturn (by simp_all)
      · exact notFeed
    rw [List.cons_append, kept, ih, List.cons_append]

theorem breakAt?_self (needle t : Text) (notEmpty : needle ≠ []) :
    breakAt? needle (needle ++ t) = some ([], t) := by
  obtain ⟨c, needle, rfl⟩ := List.exists_cons_of_ne_nil notEmpty
  have starts := List.isPrefixOf?_eq_some_iff_append_eq.mpr (rfl : c :: needle ++ t = _)
  rw [List.cons_append] at starts ⊢
  simp [breakAt?, starts]

theorem breakAt?_eq_some {needle t before after : Text}
    (found : breakAt? needle t = some (before, after)) : t = before ++ needle ++ after := by
  induction t generalizing before with
  | nil =>
    rw [breakAt?] at found
    split at found
    · next empty => simp_all
    · cases found
  | cons c r ih =>
    rw [breakAt?] at found
    split at found
    · next starts =>
      cases found
      simpa using (List.isPrefixOf?_eq_some_iff_append_eq.mp starts).symm
    · obtain ⟨⟨before, after⟩, foundLater, equal⟩ := Option.map_eq_some_iff.mp found
      cases equal
      simp [ih foundLater]

theorem trimEnd_eq_self {t : Text} (front : Text) (c : Char) (visible : isBlank c = false)
    (ends : t = front ++ [c]) : t.trimEnd = t := by
  simp [trimEnd, ends, visible]

/-- Trimming takes blanks only. -/
theorem trim_split (t : Text) :
    ∃ front back, t = front ++ t.trim ++ back ∧ (∀ c ∈ front, isBlank c = true) ∧
      ∀ c ∈ back, isBlank c = true := by
  have started : t.takeWhile isBlank ++ t.trimStart = t := List.takeWhile_append_dropWhile
  have ended : t.trim ++ t.trimStart.rtakeWhile isBlank = t.trimStart :=
    List.rdropWhile_append_rtakeWhile
  refine ⟨t.takeWhile isBlank, t.trimStart.rtakeWhile isBlank, ?_, ?_, ?_⟩
  · rw [List.append_assoc, ended, started]
  · exact fun c member => List.mem_takeWhile_imp member
  · exact fun c member => List.mem_rtakeWhile_imp member

theorem lineFeeds_append (t u : Text) : lineFeeds (t ++ u) = lineFeeds t + lineFeeds u :=
  List.count_append

theorem join_splitOn (separator : Char) (t : Text) : join [separator] (t.splitOn separator) = t :=
  List.intercalate_splitOn separator

theorem join_cons {separator : Text} (piece : Text) {pieces : List Text} (more : pieces ≠ []) :
    join separator (piece :: pieces) = piece ++ (separator ++ join separator pieces) := by
  obtain ⟨next, pieces, rfl⟩ := List.exists_cons_of_ne_nil more
  simp [join, List.intercalate_cons_cons]

theorem join_append (separator : Text) {first second : List Text} (notEmpty : first ≠ [])
    (more : second ≠ []) : join separator (first ++ second) =
      join separator first ++ separator ++ join separator second := by
  induction first with
  | nil => exact absurd rfl notEmpty
  | cons piece first ih =>
    by_cases last : first = []
    · subst last
      rw [List.singleton_append, join_cons piece more]
      simp [join]
    · rw [List.cons_append, join_cons piece (by simp [last]), ih last, join_cons piece last]
      simp

theorem infix_join (separator : Text) {piece : Text} {pieces : List Text} (listed : piece ∈ pieces) :
    piece <:+: join separator pieces := by
  induction pieces with
  | nil => cases listed
  | cons first pieces ih =>
    by_cases last : pieces = []
    · obtain rfl : piece = first := by simpa [last] using listed
      simp [join, last]
    · rw [join_cons first last]
      rcases List.mem_cons.mp listed with rfl | later
      · exact (List.prefix_append _ _).isInfix
      · rw [← List.append_assoc]
        exact (ih later).trans (List.suffix_append _ _).isInfix

theorem not_mem_ofNat {c : Char} (other : c.isDigit = false) (n : Nat) : c ∉ ofNat n := by
  intro member
  have digit := Nat.isDigit_of_mem_toDigits (by decide) (by decide) member
  exact Bool.false_ne_true (other.symm.trans digit)

theorem not_mem_join {c : Char} {separator : Text} {pieces : List Text} (apart : c ∉ separator)
    (each : ∀ piece ∈ pieces, c ∉ piece) : c ∉ join separator pieces := by
  induction pieces with
  | nil => exact List.not_mem_nil
  | cons piece pieces ih =>
    obtain ⟨first, rest⟩ := List.forall_mem_cons.mp each
    by_cases last : pieces = []
    · simpa [join, last] using first
    · rw [join_cons piece last]
      simp [first, apart, ih rest]

/-- A piece of a text between separators is a part of it. -/
theorem infix_of_mem_splitOn {separator : Char} {t piece : Text} (listed : piece ∈ t.splitOn separator) :
    piece <:+: t := by
  have joined := infix_join [separator] listed
  rwa [join_splitOn] at joined

theorem not_mem_replaceChar {c old : Char} {new t : Text} (outside : c ∉ t) (other : c ∉ new) :
    c ∉ replaceChar old new t := by
  intro member
  obtain ⟨d, inside, here⟩ := List.mem_flatMap.mp member
  split at here
  · exact other here
  · exact outside (List.mem_singleton.mp here ▸ inside)

theorem not_mem_of_mem_lines {c : Char} {t line : Text} (outside : c ∉ t) (listed : line ∈ lines t) :
    c ∉ line := by
  have piece {p : Text} (cut : p ∈ t.splitOn '\n') : c ∉ p :=
    fun inside => outside ((infix_of_mem_splitOn cut).subset inside)
  rcases List.mem_append.mp listed with ended | last
  · obtain ⟨p, cut, rfl⟩ := List.mem_map.mp ended
    have whole := piece (List.dropLast_subset _ cut)
    unfold chompReturn
    split
    · exact fun inside => whole (List.dropLast_subset _ inside)
    · exact whole
  · split at last
    · cases last
    · obtain rfl := List.mem_singleton.mp last
      cases unfinished : (t.splitOn '\n').getLast? with
      | none => exact List.not_mem_nil
      | some p => exact piece (List.mem_of_getLast? unfinished)

theorem all_other {c : Char} {t : Text} (absent : c ∉ t) : ∀ d ∈ t.reverse, (d != c) = true := by
  intro d member
  rw [bne_iff_ne]
  rintro rfl
  exact absent (List.mem_reverse.mp member)

/-- The last place of a character splits a text into what stands before and behind it. -/
theorem afterLast_append {c : Char} (before : Text) {behind : Text} (last : c ∉ behind) :
    afterLast c (before ++ c :: behind) = behind := by
  simp [afterLast, List.takeWhile_append_of_pos (all_other last)]

theorem afterLast_eq_self {c : Char} {t : Text} (absent : c ∉ t) : afterLast c t = t := by
  rw [afterLast, List.takeWhile_eq_self_iff.mpr (all_other absent), List.reverse_reverse]

theorem exists_last {c : Char} {t : Text} (present : c ∈ t) :
    ∃ before behind, t = before ++ c :: behind ∧ c ∉ behind := by
  obtain ⟨front, back, equal, fresh⟩ := List.eq_append_cons_of_mem (List.mem_reverse.mpr present)
  refine ⟨back.reverse, front.reverse, ?_, by simpa using fresh⟩
  rw [← List.reverse_reverse t, equal]
  simp

end Text

end KeyGloss
