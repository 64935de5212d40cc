import KeyGloss.Proofs.Token.Ends

/-!
# The lexical rules one by one

Every lexeme is found by one of a few rules (`rule_of_scan`), and none is longer than the source
(`scan_le_length`). A character at which no rule applies is no white space, starts no word or number,
and is no slash (`scan_eq_none_cases`).
-/

namespace KeyGloss

namespace Lexeme

theorem run_cons (p : Char → Bool) (c : Char) (t : Text) :
    run p (c :: t) = if p c then run p t + 1 else 0 := by
  cases holds : p c <;> simp [run, holds]

theorem run_append {p : Char → Bool} {s : Text} (t : Text) (all : ∀ c ∈ s, p c = true) :
    run p (s ++ t) = s.length + run p t := by
  simp [run, List.takeWhile_append_of_pos all]

theorem run_le_length (p : Char → Bool) (t : Text) : run p t ≤ t.length := by
  induction t with
  | nil => exact Nat.le_refl 0
  | cons c t ih =>
    rw [run_cons, List.length_cons]
    split <;> omega

theorem exponentDigits_eq (mark : Nat) (t : Text) :
    exponentDigits mark t = if run isDigitPart t = 0 then 0 else mark + run isDigitPart t := by
  unfold exponentDigits
  split
  · next zero => simp [zero]
  · next n positive => exact (if_neg positive).symm

/-- The length of a number in another base, or zero. -/
theorem basedTail?_cons (c : Char) (t : Text) :
    basedTail? (c :: t) =
      if ("xXoObB" : Text).contains c = true ∧ run isHexPart t ≠ 0 then
        some (1 + run isHexPart t + bigMark (t.drop (run isHexPart t)))
      else none := by
  unfold basedTail?
  by_cases based : ("xXoObB" : Text).contains c = true
  · simp only [based, if_true, true_and]
    split
    · next zero => simp [zero]
    · next n positive => rw [if_pos positive]
  · simp only
    rw [if_neg based, if_neg fun both => based both.1]

theorem scan_of_space {c : Char} (t : Text) (space : isSpace c = true) :
    scan c t = some (.text, run isSpace t) := by
  simp [scan, space]

theorem scan_slash (t : Text) : scan '/' t = slash t := rfl

/-- The kind of the string literals that a quote makes. -/
def quoteKind (quote : Char) : TokenKind :=
  if quote = '"' then .stringDouble else if quote = '\'' then .stringSingle else .stringBacktick

/-- The three quotes. -/
def QuoteMark (c : Char) : Prop := c = '"' ∨ c = '\'' ∨ c = '\x60'

theorem scan_of_quote {quote : Char} (t : Text) (mark : QuoteMark quote) :
    scan quote t = (stringTail? quote (quote == '\x60') t).map (quoteKind quote, ·) := by
  rcases mark with rfl | rfl | rfl <;> rfl

theorem scan_of_symbol {c : Char} (t : Text) (space : isSpace c = false)
    (word : isWordStart c = false) (digit : c.isDigit = false) (slash : c ≠ '/')
    (quote : ¬ QuoteMark c) : scan c t = symbol? c t := by
  simp only [QuoteMark, not_or] at quote
  simp [scan, space, word, digit, quote]

theorem symbol?_eq_some {c : Char} {t : Text} {kind : TokenKind} {n : Nat}
    (found : symbol? c t = some (kind, n)) :
    (kind = .operator ∨ kind = .punctuation) ∧ ∀ k ∈ operatorTail? c t, k = n := by
  unfold symbol? at found
  split at found
  · next k operator =>
    cases found
    exact ⟨.inl rfl, by simp [operator]⟩
  · next noOperator =>
    split at found
    · cases found
      exact ⟨.inr rfl, by simp [noOperator]⟩
    · cases found

theorem slash_line (r : Text) : slash ('/' :: r) = some (.comment, 1 + run (· != '\n') r) := rfl

theorem slash_block (r : Text) :
    slash ('*' :: r) =
      match blockTail? r with
      | some n => some (.blockComment, 1 + n)
      | none => symbol? '/' ('*' :: r) := rfl

theorem operatorTail?_slash_ne_none (t : Text) : operatorTail? '/' t ≠ none := by
  unfold operatorTail?
  rw [Ne, List.find?_eq_none]
  intro fails
  have alone : operators.contains ['/'] = true := by decide
  have := fails 0 (by simp)
  simp_all

theorem slash_ne_none (t : Text) : slash t ≠ none := by
  have symbol (t : Text) : symbol? '/' t ≠ none := by
    unfold symbol?
    split
    · simp
    · next noOperator => exact absurd noOperator (operatorTail?_slash_ne_none t)
  unfold slash
  split
  · simp
  · split
    · simp
    · exact symbol _
  · exact symbol _

/-- An operator of one character stands alone where no longer one goes on. -/
theorem symbol?_alone {c : Char} {t : Text} (alone : operators.contains [c] = true)
    (stops : ∀ operator ∈ operators, operator.head? = some c →
      operator = [c] ∨ operator.tail.head? ≠ t.head?) : symbol? c t = some (.operator, 0) := by
  have longer (n : Nat) (more : n ≠ 0) :
      (decide ((t.take n).length = n) && operators.contains (c :: t.take n)) = false := by
    rw [Bool.eq_false_iff]
    intro found
    obtain ⟨length, found⟩ := Bool.and_eq_true_iff.mp found
    rcases stops _ (List.elem_iff.mp found) rfl with single | other
    · have empty : t.take n = [] := (List.cons.inj single).2
      rw [empty] at length
      exact more (of_decide_eq_true length).symm
    · refine other ?_
      rw [List.tail_cons, List.head?_take, if_neg more]
  have tail : operatorTail? c t = some 0 := by
    simp only [operatorTail?, List.find?_cons, longer 3 (by decide), longer 2 (by decide),
      longer 1 (by decide), List.take_zero, List.length_nil, alone, decide_true, Bool.and_self]
  rw [symbol?, tail]

/-- No operator goes on from a slash to a star. -/
theorem symbol?_slash_star (t : Text) : symbol? '/' ('*' :: t) = some (.operator, 0) := by
  have listed : ∀ operator ∈ operators, operator.head? = some '/' →
      operator = ['/'] ∨ operator.tail.head? ≠ some '*' := by decide
  exact symbol?_alone (by decide) listed

/-- A mark that no operator starts with stands for itself. -/
theorem scan_of_mark {c : Char} {t : Text} (symbol : scan c t = symbol? c t)
    (mark : punctuation.contains c = true) (listed : ∀ operator ∈ operators, operator.head? ≠ some c) :
    scan c t = some (.punctuation, 0) := by
  have noOperator : operatorTail? c t = none := by
    unfold operatorTail?
    rw [List.find?_eq_none]
    intro n _ found
    simp only [Bool.and_eq_true] at found
    exact listed _ (List.elem_iff.mp found.2) rfl
  rw [symbol, symbol?, noOperator]
  exact if_pos mark

theorem scan_comma (t : Text) : scan ',' t = some (.punctuation, 0) :=
  scan_of_mark rfl (by decide) (by decide)

theorem scan_opening (t : Text) : scan '\x7b' t = some (.punctuation, 0) :=
  scan_of_mark rfl (by decide) (by decide)

theorem scan_closing (t : Text) : scan '\x7d' t = some (.punctuation, 0) :=
  scan_of_mark rfl (by decide) (by decide)

theorem scan_semicolon (t : Text) : scan ';' t = some (.punctuation, 0) :=
  scan_of_mark rfl (by decide) (by decide)

/-- No operator goes on from a colon. -/
theorem scan_colon (t : Text) : scan ':' t = some (.operator, 0) := by
  have listed : ∀ operator ∈ operators, operator.head? = some ':' → operator = [':'] := by decide
  have symbol : scan ':' t = symbol? ':' t := rfl
  rw [symbol]
  exact symbol?_alone (by decide) fun operator member first => .inl (listed operator member first)

/-- No operator goes on from an equals sign to a blank. -/
theorem scan_equals_blank (t : Text) : scan '=' (' ' :: t) = some (.operator, 0) := by
  have listed : ∀ operator ∈ operators, operator.head? = some '=' →
      operator = ['='] ∨ operator.tail.head? ≠ some ' ' := by decide
  have symbol : scan '=' (' ' :: t) = symbol? '=' (' ' :: t) := rfl
  rw [symbol]
  exact symbol?_alone (by decide) listed

theorem isSpace_of_isWordStart {c : Char} (starts : isWordStart c = true) : isSpace c = false := by
  rw [Bool.eq_false_iff]
  intro space
  simp only [isSpace, Bool.or_eq_true, beq_iff_eq] at space
  rcases space with (((rfl | rfl) | rfl) | rfl) | rfl <;> cases starts

/-- A word ends where no part of a word follows. -/
theorem scan_word {c : Char} {w t : Text} (starts : isWordStart c = true)
    (parts : ∀ d ∈ w, isWordPart d = true) (ends : ∀ d ∈ t.head?, isWordPart d = false) :
    scan c (w ++ t) = some (.name, w.length) := by
  have visible := isSpace_of_isWordStart starts
  have length : run isWordPart (w ++ t) = w.length := by
    rw [run, List.takeWhile_append_of_pos parts]
    cases t with
    | nil => simp
    | cons d t => simp [ends d rfl]
  simp [scan, visible, starts, length]

/-- A stray is no white space, letter, digit or slash: a quote without an end, or a character that
no symbol starts with. -/
theorem scan_eq_none_cases {c : Char} {t : Text} (stray : scan c t = none) :
    isSpace c = false ∧ isWordStart c = false ∧ c.isDigit = false ∧ c ≠ '/' := by
  refine ⟨?_, ?_, ?_, ?_⟩
  · cases space : isSpace c with
    | false => rfl
    | true => simp [scan, space] at stray
  · cases word : isWordStart c with
    | false => rfl
    | true =>
      simp only [scan, word, if_true] at stray
      split at stray <;> cases stray
  · cases digit : c.isDigit with
    | false => rfl
    | true =>
      simp only [scan, digit, if_true] at stray
      repeat' split at stray
      all_goals cases stray
  · rintro rfl
    exact slash_ne_none t stray

/-- The rules by which a lexeme is found. -/
inductive Rule (c : Char) (r : Text) : TokenKind → Nat → Prop
  | space (here : isSpace c = true) : Rule c r .text (run isSpace r)
  | word : Rule c r .name (run isWordPart r)
  | number : Rule c r .number (numberTail c r)
  | line {t : Text} (slash : c = '/') (again : r = '/' :: t) :
      Rule c r .comment (1 + run (· != '\n') t)
  | block {t : Text} {n : Nat} (slash : c = '/') (star : r = '*' :: t)
      (ends : blockTail? t = some n) : Rule c r .blockComment (1 + n)
  | string {kind : TokenKind} {multiline : Bool} {n : Nat} (literal : kind.isString = true)
      (ends : stringTail? c multiline r = some n) : Rule c r kind n
  | symbol {kind : TokenKind} {n : Nat} (found : symbol? c r = some (kind, n)) : Rule c r kind n

theorem rule_of_slash {r : Text} {kind : TokenKind} {n : Nat}
    (found : slash r = some (kind, n)) : Rule '/' r kind n := by
  unfold slash at found
  split at found
  · cases found
    exact .line rfl rfl
  · split at found
    · next n ends =>
      cases found
      exact .block rfl rfl ends
    · exact .symbol found
  · exact .symbol found

theorem rule_of_scan {c : Char} {r : Text} {kind : TokenKind} {n : Nat}
    (found : scan c r = some (kind, n)) : Rule c r kind n := by
  cases space : isSpace c with
  | true =>
    rw [scan_of_space _ space] at found
    cases found
    exact .space space
  | false =>
    cases word : isWordStart c with
    | true =>
      simp only [scan, space, word, if_true, Bool.false_eq_true, if_false] at found
      cases found
      exact .word
    | false =>
      cases digit : c.isDigit with
      | true =>
        simp only [scan, space, word, digit, if_true, Bool.false_eq_true, if_false] at found
        cases found
        exact .number
      | false =>
        by_cases slash : c = '/'
        · subst slash
          exact rule_of_slash found
        · by_cases mark : QuoteMark c
          · rw [scan_of_quote _ mark] at found
            obtain ⟨k, ends, equal⟩ := Option.map_eq_some_iff.mp found
            cases equal
            refine .string ?_ ends
            rcases mark with rfl | rfl | rfl <;> rfl
          · rw [scan_of_symbol _ space word digit slash mark] at found
            exact .symbol found

/-- A length that lies within the text. -/
def Bounded (length : Text → Nat) : Prop := ∀ t, length t ≤ t.length

theorem Bounded.andThen {first second : Text → Nat} (boundedFirst : Bounded first)
    (boundedSecond : Bounded second) : Bounded fun t => first t + second (t.drop (first t)) := by
  intro t
  have one := boundedFirst t
  have other := boundedSecond (t.drop (first t))
  rw [List.length_drop] at other
  simp only
  omega

theorem Bounded.fraction : Bounded fraction := by
  intro t
  unfold Lexeme.fraction
  split
  · next r =>
    have := run_le_length isDigitPart r
    simp only [List.length_cons]
    omega
  · exact Nat.zero_le _

theorem Bounded.exponent : Bounded exponent := by
  have digits (mark : Nat) (t : Text) : exponentDigits mark t ≤ mark + t.length := by
    have := run_le_length isDigitPart t
    rw [exponentDigits_eq]
    split <;> omega
  intro t
  unfold Lexeme.exponent
  repeat' split
  · next s r _ =>
    have := digits 2 r
    simp only [List.length_cons]
    omega
  · next s r _ =>
    have := digits 1 (s :: r)
    simp only [List.length_cons] at this ⊢
    omega
  all_goals exact Nat.zero_le _

theorem Bounded.bigMark : Bounded bigMark := by
  intro t
  unfold Lexeme.bigMark
  split <;> simp

theorem Bounded.numberTail (c : Char) : Bounded (numberTail c) := by
  have decimal : Bounded decimalTail :=
    ((Bounded.andThen (run_le_length _) .fraction).andThen .exponent).andThen .bigMark
  have based (t : Text) : (basedTail? t).getD (decimalTail t) ≤ t.length := by
    cases t with
    | nil => exact decimal []
    | cons d t =>
      have digits := Bounded.andThen (run_le_length isHexPart) .bigMark t
      rw [basedTail?_cons]
      split
      · rw [Option.getD_some, List.length_cons]
        simp only at digits
        omega
      · exact decimal (d :: t)
  intro t
  unfold Lexeme.numberTail
  split
  · exact based t
  · exact decimal t

/-- A lexeme lies within the source. -/
theorem scan_le_length {c : Char} {r : Text} {kind : TokenKind} {n : Nat}
    (found : scan c r = some (kind, n)) : n ≤ r.length := by
  cases rule_of_scan found with
  | space => exact run_le_length ..
  | word => exact run_le_length ..
  | number => exact Bounded.numberTail c r
  | @line t slash again =>
    have := run_le_length (· != '\n') t
    rw [again, List.length_cons]
    omega
  | @block t n slash star ends =>
    have := blockTail?_le_length ends
    rw [star, List.length_cons]
    omega
  | string literal ends => exact stringTail?_le_length ends
  | symbol found =>
    unfold symbol? at found
    split at found
    · next k operator =>
      cases found
      have fits := List.find?_some operator
      simp only [List.length_take, Bool.and_eq_true, decide_eq_true_eq] at fits
      omega
    · split at found
      · cases found
        exact Nat.zero_le _
      · cases found

end Lexeme

end KeyGloss
