import KeyGloss.Token.Lexer

/-!
# The ends of strings and block comments

The search for the end of a string, or of a block comment, over one text and then another: it depends
on the first text only through whether the next character is escaped (`search_append`), or through
whether its last character is a star (`blockTail?_append_eq_none`).
-/

namespace KeyGloss

namespace Lexeme

/-- The search for the end of a string one character at a time; `escaped` tells that a backslash
came right before. -/
def search (quote : Char) (multiline : Bool) : Bool → Text → Option Nat
  | _, [] => none
  | true, _ :: r => (search quote multiline false r).map (· + 1)
  | false, c :: r =>
    if c = quote then some 1
    else if c = '\n' && !multiline then none
    else (search quote multiline (c == '\\') r).map (· + 1)

theorem stringTail?_eq_search {quote : Char} (multiline : Bool) (t : Text) (mark : quote ≠ '\\') :
    stringTail? quote multiline t = search quote multiline false t := by
  fun_induction stringTail? quote multiline t with
  | case1 => rfl
  | case2 d r ih => simp [search, Ne.symm mark, ih, Function.comp_def]
  | case3 c r => simp [search]
  | case4 c r free different dead =>
    by_cases escape : c = '\\'
    · subst escape
      cases r with
      | nil => simp [search, different]
      | cons d r => exact (free d r rfl rfl).elim
    · have ends : (c = '\n' && !multiline) = true := by simpa [escape] using dead
      simp [search, different, ends]
  | case5 c r free different dead ih =>
    obtain ⟨escape, goesOn⟩ : ¬ c = '\\' ∧ ¬ (c = '\n' && !multiline) = true := by
      simpa only [Bool.or_eq_true, decide_eq_true_eq, not_or] using dead
    simp only [search, different, goesOn, if_false, beq_eq_false_iff_ne.mpr escape, ih,
      Bool.false_eq_true]

theorem search_pos {quote : Char} {multiline escaped : Bool} {t : Text} {n : Nat}
    (found : search quote multiline escaped t = some n) : 0 < n := by
  unfold search at found
  split at found
  · cases found
  · obtain ⟨k, -, rfl⟩ := Option.map_eq_some_iff.mp found
    exact Nat.succ_pos k
  · split at found
    · exact Option.some.inj found ▸ Nat.one_pos
    · split at found
      · cases found
      · obtain ⟨k, -, rfl⟩ := Option.map_eq_some_iff.mp found
        exact Nat.succ_pos k

/-- A string that ends within `x` does not see what follows. -/
theorem search_exchange {quote : Char} {multiline escaped : Bool} {n : Nat} (x b b' : Text)
    (found : search quote multiline escaped (x ++ b) = some n) (within : n ≤ x.length) :
    search quote multiline escaped (x ++ b') = some n := by
  induction x generalizing escaped n with
  | nil => exact absurd (search_pos found) (Nat.not_lt.mpr within)
  | cons c x ih =>
    simp only [List.length_cons] at within
    cases escaped with
    | true =>
      simp only [List.cons_append, search] at found ⊢
      obtain ⟨k, later, rfl⟩ := Option.map_eq_some_iff.mp found
      rw [ih later (by omega), Option.map_some]
    | false =>
      simp only [List.cons_append, search] at found ⊢
      split at found
      · next ends => rw [if_pos ends, found]
      · next different =>
        split at found
        · cases found
        · next goesOn =>
          obtain ⟨k, later, rfl⟩ := Option.map_eq_some_iff.mp found
          rw [if_neg different, if_neg goesOn, ih later (by omega), Option.map_some]

/-- Where the search for the end of a string on one line stands after a text: none when it is over,
else whether the next character is escaped. -/
def searchState (quote : Char) : Bool → Text → Option Bool
  | escaped, [] => some escaped
  | true, _ :: r => searchState quote false r
  | false, c :: r =>
    if c = quote ∨ c = '\n' then none else searchState quote (c == '\\') r

theorem search_append (quote : Char) (escaped : Bool) (x b : Text) :
    search quote false escaped (x ++ b) =
      match searchState quote escaped x with
      | some after => (search quote false after b).map (· + x.length)
      | none => search quote false escaped x := by
  induction x generalizing escaped with
  | nil => simp [searchState]
  | cons c x ih =>
    cases escaped with
    | true =>
      simp only [List.cons_append, search, searchState, ih]
      cases searchState quote false x <;> simp [Function.comp_def, Nat.add_assoc]
    | false =>
      by_cases ends : c = quote
      · simp [search, searchState, ends]
      · by_cases feed : c = '\n'
        · simp [search, searchState, feed]
        · simp only [List.cons_append, search, searchState, ends, feed, ih, if_false, or_self,
            decide_false, Bool.false_and, Bool.false_eq_true]
          cases searchState quote (c == '\\') x <;> simp [Function.comp_def, Nat.add_assoc]

theorem blockTail?_cons (c : Char) (r : Text) :
    blockTail? (c :: r) =
      if c = '*' ∧ r.head? = some '/' then some 2 else (blockTail? r).map (· + 1) := by
  split
  · next ends =>
    obtain ⟨rfl, slash⟩ := ends
    obtain ⟨r, rfl⟩ := List.head?_eq_some_iff.mp slash
    rfl
  · next goesOn =>
    rw [blockTail?]
    intro r' star slash
    exact goesOn ⟨star, by simp [slash]⟩

theorem blockTail?_ge_two {t : Text} {n : Nat} (found : blockTail? t = some n) : 2 ≤ n := by
  induction t generalizing n with
  | nil => cases found
  | cons c r ih =>
    rw [blockTail?_cons] at found
    split at found
    · exact Nat.le_of_eq (Option.some.inj found)
    · obtain ⟨k, later, rfl⟩ := Option.map_eq_some_iff.mp found
      exact Nat.le_succ_of_le (ih later)

/-- A text does not end the block comment that goes on over it, nor does what follows at once. -/
def NoBlockEnd (x b : Text) : Prop :=
  blockTail? x = none ∧ ¬ (x.getLast? = some '*' ∧ b.head? = some '/')

theorem noBlockEnd_nil (b : Text) : NoBlockEnd [] b := ⟨rfl, by simp⟩

theorem noBlockEnd_cons {c : Char} {x b : Text} :
    NoBlockEnd (c :: x) b ↔ ¬ (c = '*' ∧ (x ++ b).head? = some '/') ∧ NoBlockEnd x b := by
  cases x with
  | nil => simp [NoBlockEnd, blockTail?_cons, blockTail?]
  | cons d x =>
    by_cases ends : c = '*' ∧ d = '/'
    · obtain ⟨rfl, rfl⟩ := ends
      simp [NoBlockEnd, blockTail?]
    · simp [NoBlockEnd, blockTail?_cons c, ends]

theorem blockTail?_append {x b : Text} (quiet : NoBlockEnd x b) :
    blockTail? (x ++ b) = (blockTail? b).map (· + x.length) := by
  induction x with
  | nil => simp
  | cons c x ih =>
    obtain ⟨goesOn, rest⟩ := noBlockEnd_cons.mp quiet
    rw [List.cons_append, blockTail?_cons, if_neg goesOn, ih rest]
    simp [Function.comp_def, Nat.add_assoc]

/-- A block comment that ends within `x` does not see what follows. -/
theorem blockTail?_exchange {n : Nat} (x b b' : Text) (found : blockTail? (x ++ b) = some n)
    (within : n ≤ x.length) : blockTail? (x ++ b') = some n := by
  induction x generalizing n with
  | nil => exact absurd (blockTail?_ge_two found) (by simp at within; omega)
  | cons c x ih =>
    have long := blockTail?_ge_two found
    obtain ⟨d, x, rfl⟩ : ∃ d y, x = d :: y := by
      cases x with
      | nil => simp at within; omega
      | cons d y => exact ⟨d, y, rfl⟩
    simp only [List.cons_append, List.length_cons] at ih within
    rw [List.cons_append, blockTail?_cons, List.cons_append, List.head?_cons] at found ⊢
    by_cases ends : c = '*' ∧ some d = some '/'
    · rwa [if_pos ends] at found ⊢
    · rw [if_neg ends] at found ⊢
      obtain ⟨k, later, rfl⟩ := Option.map_eq_some_iff.mp found
      rw [ih later (by omega), Option.map_some]

/-- A block comment that goes on for two characters behind `x` was not ended in `x`. -/
theorem blockTail?_of_append {x b : Text} {n : Nat} (found : blockTail? (x ++ b) = some n)
    (beyond : x.length + 2 ≤ n) : NoBlockEnd x b ∧ blockTail? b = some (n - x.length) := by
  induction x generalizing n with
  | nil => exact ⟨noBlockEnd_nil b, by simpa using found⟩
  | cons c x ih =>
    simp only [List.length_cons] at beyond
    rw [List.cons_append, blockTail?_cons] at found
    by_cases ends : c = '*' ∧ (x ++ b).head? = some '/'
    · rw [if_pos ends] at found
      have := Option.some.inj found
      omega
    · rw [if_neg ends] at found
      obtain ⟨k, later, rfl⟩ := Option.map_eq_some_iff.mp found
      obtain ⟨quiet, rest⟩ := ih later (by omega)
      refine ⟨noBlockEnd_cons.mpr ⟨ends, quiet⟩, ?_⟩
      rw [rest, List.length_cons, Nat.add_sub_add_right]

/-- A block comment that is never ended. -/
theorem blockTail?_append_eq_none {x b : Text} :
    blockTail? (x ++ b) = none ↔ NoBlockEnd x b ∧ blockTail? b = none := by
  constructor
  · intro unended
    induction x with
    | nil => exact ⟨noBlockEnd_nil b, unended⟩
    | cons c x ih =>
      rw [List.cons_append, blockTail?_cons] at unended
      by_cases ends : c = '*' ∧ (x ++ b).head? = some '/'
      · rw [if_pos ends] at unended
        cases unended
      · rw [if_neg ends, Option.map_eq_none_iff] at unended
        obtain ⟨quiet, rest⟩ := ih unended
        exact ⟨noBlockEnd_cons.mpr ⟨ends, quiet⟩, rest⟩
  · rintro ⟨quiet, unended⟩
    rw [blockTail?_append quiet, unended, Option.map_none]

theorem stringTail?_le_length {quote : Char} {multiline : Bool} {t : Text} {n : Nat}
    (found : stringTail? quote multiline t = some n) : n ≤ t.length := by
  fun_induction stringTail? quote multiline t generalizing n with
  | case1 => cases found
  | case2 d r ih =>
    obtain ⟨k, later, rfl⟩ := Option.map_eq_some_iff.mp found
    have := ih later
    simp only [List.length_cons]
    omega
  | case3 c r =>
    cases found
    simp
  | case4 => cases found
  | case5 c r free different dead ih =>
    obtain ⟨k, later, rfl⟩ := Option.map_eq_some_iff.mp found
    have := ih later
    simp only [List.length_cons]
    omega

theorem blockTail?_le_length {t : Text} {n : Nat} (found : blockTail? t = some n) :
    n ≤ t.length := by
  induction t generalizing n with
  | nil => cases found
  | cons c r ih =>
    rw [blockTail?_cons] at found
    split at found
    · next ends =>
      obtain ⟨r, rfl⟩ := List.head?_eq_some_iff.mp ends.2
      cases found
      simp
    · obtain ⟨k, later, rfl⟩ := Option.map_eq_some_iff.mp found
      exact Nat.succ_le_succ (ih later)

end Lexeme

end KeyGloss
