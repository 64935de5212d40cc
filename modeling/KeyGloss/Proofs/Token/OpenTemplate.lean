import KeyGloss.Proofs.Text
import KeyGloss.Proofs.Token.MaximalMunch

/-!
# Sources that cannot be cut into tokens

The scan of a source by longest matches comes to one token boundary after the other (`Reaches`), until it
finds a template without an end or the source is used up. `OpensTemplate source before` says that such a
template starts behind `before`; it is told step by step (`opensTemplate_lexeme`, `opensTemplate_stray`,
`opensTemplate_here`), and these are the only sources that the lexer refuses (`lexFrom_eq_error_iff`).
-/

namespace KeyGloss

namespace Lexeme

variable {r : Text}

/-- No further backtick closes a template: a backslash escapes each of them. -/
def NeverCloses (rest : Text) : Prop :=
  ∀ front back, rest = front ++ '\x60' :: back → escapesFrom false front = true

theorem search_eq_none_iff (quote : Char) (escaped : Bool) (t : Text) :
    search quote true escaped t = none ↔
      ∀ front back, t = front ++ quote :: back → escapesFrom escaped front = true := by
  induction t generalizing escaped with
  | nil => simp [search]
  | cons c t ih =>
    have split (goal : Text → Prop) :
        (∀ front back, c :: t = front ++ quote :: back → goal front) ↔
          (c = quote → goal []) ∧ ∀ front back, t = front ++ quote :: back → goal (c :: front) := by
      constructor
      · intro all
        refine ⟨?_, ?_⟩
        · rintro rfl
          exact all [] t rfl
        · rintro front back rfl
          exact all (c :: front) back rfl
      · rintro ⟨here, later⟩ front back equal
        cases front with
        | nil => exact here (List.cons.inj equal).1
        | cons d front =>
          obtain ⟨rfl, rest⟩ := List.cons.inj equal
          exact later front back rest
    rw [split]
    cases escaped with
    | true => simp [search, ih, escapesFrom]
    | false =>
      by_cases same : c = quote
      · simp [search, same, escapesFrom]
      · simp [search, same, ih, escapesFrom]

theorem scan_template_eq_none_iff : scan '\x60' r = none ↔ NeverCloses r := by
  rw [scan_of_quote r (.inr (.inr rfl)), Option.map_eq_none_iff,
    stringTail?_eq_search _ r (by decide), NeverCloses]
  exact search_eq_none_iff '\x60' false r

end Lexeme

namespace Token

open Lexeme

variable {c : Char} {r before : Text} {kind : TokenKind} {n : Nat}

/-! ## Token boundaries -/

/-- The scan of `before ++ rest` by longest matches comes to a token boundary in front of `rest`: up to there
it finds longest matches and, where no rule matches, single characters. A backtick is not passed over. -/
inductive Reaches : Text → Text → Prop
  | start (rest : Text) : Reaches [] rest
  | lexeme {kind : TokenKind} {value before rest : Text}
      (longest : LongestMatch kind value (value ++ (before ++ rest))) (further : Reaches before rest) :
      Reaches (value ++ before) rest
  | stray {c : Char} {before rest : Text} (unmatched : Unmatched (c :: (before ++ rest)))
      (other : c ≠ '\x60') (further : Reaches before rest) : Reaches (c :: before) rest

/-- The scan of a source comes to a backtick behind `before` that opens a template without an end. -/
def OpensTemplate (source before : Text) : Prop :=
  ∃ rest, source = before ++ '\x60' :: rest ∧ Reaches before ('\x60' :: rest) ∧ NeverCloses rest

theorem not_opensTemplate_nil : ¬ OpensTemplate [] before := by
  rintro ⟨rest, equal, -⟩
  simp at equal

/-- Behind a lexeme the scan goes on. -/
theorem opensTemplate_lexeme (rule : scan c r = some (kind, n)) :
    OpensTemplate (c :: r) before ↔
      ∃ later, before = c :: r.take n ++ later ∧ OpensTemplate (r.drop n) later := by
  have longest := longestMatch_of_scan rule
  have source : c :: r = c :: r.take n ++ r.drop n := by simp
  constructor
  · rintro ⟨rest, equal, reaches, open_⟩
    cases reaches with
    | start =>
      obtain ⟨rfl, rfl⟩ := List.cons.inj equal
      rw [scan_template_eq_none_iff.mpr open_] at rule
      cases rule
    | @lexeme _ value later _ match_ further =>
      rw [← List.append_assoc, ← equal] at match_
      obtain ⟨-, rfl⟩ := longest.unique match_
      rw [source, List.append_assoc] at equal
      exact ⟨later, rfl, rest, List.append_cancel_left equal, further, open_⟩
    | stray unmatched other further =>
      rw [← List.cons_append, ← equal] at unmatched
      exact absurd unmatched longest.not_unmatched
  · rintro ⟨later, rfl, rest, equal, reaches, open_⟩
    have match_ : LongestMatch kind (c :: r.take n) (c :: r.take n ++ (later ++ '\x60' :: rest)) := by
      rwa [← equal, ← source]
    exact ⟨rest, by rw [List.append_assoc, ← equal, ← source], .lexeme match_ reaches, open_⟩

/-- Behind a stray the scan goes on. -/
theorem opensTemplate_stray (noRule : scan c r = none) (closed : c ≠ '\x60') :
    OpensTemplate (c :: r) before ↔ ∃ later, before = c :: later ∧ OpensTemplate r later := by
  have unmatched := scan_eq_none_iff.mp noRule
  constructor
  · rintro ⟨rest, equal, reaches, open_⟩
    cases reaches with
    | start => exact absurd (List.cons.inj equal).1 closed
    | lexeme match_ further =>
      rw [← List.append_assoc, ← equal] at match_
      exact absurd unmatched match_.not_unmatched
    | @stray _ later _ _ other further =>
      obtain ⟨rfl, behind⟩ := List.cons.inj equal
      exact ⟨later, rfl, rest, behind, further, open_⟩
  · rintro ⟨later, rfl, rest, rfl, reaches, open_⟩
    exact ⟨rest, rfl, .stray unmatched closed reaches, open_⟩

/-- At a backtick where no rule matches the scan ends. -/
theorem opensTemplate_here (noRule : scan '\x60' r = none) :
    OpensTemplate ('\x60' :: r) before ↔ before = [] := by
  have unmatched := scan_eq_none_iff.mp noRule
  constructor
  · rintro ⟨rest, equal, reaches, -⟩
    cases reaches with
    | start => rfl
    | lexeme match_ further =>
      rw [← List.append_assoc, ← equal] at match_
      exact absurd unmatched match_.not_unmatched
    | stray _ other further => exact absurd (List.cons.inj equal).1.symm other
  · rintro rfl
    exact ⟨r, rfl, .start _, scan_template_eq_none_iff.mp noRule⟩

/-! ## Failures of the lexer -/

private theorem map_eq_error {ε α β : Type} (f : α → β) (step : Except ε α) (error : ε) :
    step.map f = .error error ↔ step = .error error := by
  cases step <;> simp [Except.map]

/-- The lexer fails exactly at a template without an end, and tells the line that it starts on. -/
theorem lexFrom_eq_error_iff (language : Language) (line : Nat) (source : Text) (error : LexError) :
    lexFrom language line source = .error error ↔
      ∃ before, OpensTemplate source before ∧
        error = .openTemplate (line + Text.lineFeeds before) := by
  fun_induction lexFrom language line source with
  | case1 => simp [not_opensTemplate_nil]
  | case2 line c r kind n rule value ih =>
    rw [map_eq_error, ih]
    simp only [opensTemplate_lexeme rule]
    constructor
    · rintro ⟨later, opens, rfl⟩
      exact ⟨_, ⟨later, rfl, opens⟩, by rw [Text.lineFeeds_append, Nat.add_assoc]⟩
    · rintro ⟨_, ⟨later, rfl, opens⟩, rfl⟩
      exact ⟨later, opens, by rw [Text.lineFeeds_append, Nat.add_assoc]⟩
  | case3 line r noRule =>
    simp only [opensTemplate_here noRule, exists_eq_left]
    simp [Text.lineFeeds, eq_comm]
  | case4 line c r noRule closed ih =>
    rw [map_eq_error, ih]
    simp only [opensTemplate_stray noRule closed]
    have feeds (later : Text) : Text.lineFeeds (c :: later) = Text.lineFeeds later := by
      refine List.count_cons_of_ne ?_
      rintro rfl
      cases (scan_eq_none_cases noRule).1
    constructor
    · rintro ⟨later, opens, rfl⟩
      exact ⟨_, ⟨later, rfl, opens⟩, by rw [feeds]⟩
    · rintro ⟨_, ⟨later, rfl, opens⟩, rfl⟩
      exact ⟨later, opens, by rw [feeds]⟩

/-- The lexer fails exactly if the scan by longest matches comes to a backtick, at a token boundary, behind
which no backtick follows that is not escaped. It then reports the line of this backtick in the source. In all
other cases it cuts the source into tokens. -/
theorem lex_error_iff_opensTemplate (language : Language) (source : Text) :
    (∀ error, lex language source = .error error ↔
      ∃ before, OpensTemplate source before ∧ error = .openTemplate (1 + Text.lineFeeds before)) ∧
    ((∃ tokens, lex language source = .ok tokens ∧ MaximalMunch language source tokens) ↔
      ∀ before, ¬ OpensTemplate source before) := by
  refine ⟨lexFrom_eq_error_iff language 1 source, ?_⟩
  cases result : lex language source with
  | ok tokens =>
    have munch := lexes_iff_maximalMunch.mp (lex_eq_ok_iff.mp result)
    refine iff_of_true ⟨tokens, rfl, munch⟩ fun before opens => ?_
    have failed := (lexFrom_eq_error_iff language 1 source _).mpr ⟨before, opens, rfl⟩
    rw [← lex, result] at failed
    cases failed
  | error error =>
    obtain ⟨before, opens, -⟩ := (lexFrom_eq_error_iff language 1 source error).mp result
    refine iff_of_false ?_ fun closed => closed before opens
    rintro ⟨tokens, success, -⟩
    cases success

end Token

end KeyGloss
