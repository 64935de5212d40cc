import KeyGloss.Proofs.Token.Rules

/-!
# How far the lexical rules look

A rule may look at characters behind the lexeme it finds. What it sees there matters little: when
the lexeme lies within `r`, what follows `r` can be exchanged for any text that starts with a stop
(`scan_exchange`). Only the searches for the end of a string or of a block comment look further;
when such a search fails, it has to fail on the other text too.
-/

namespace KeyGloss

namespace Lexeme

/-- A character that goes on with no word, number or operator. -/
def isStop (c : Char) : Bool := c == ' ' || c == ',' || c == '\r' || c == '\n' || c == '/'

/-- A text that goes on with no lexeme before it. -/
def Stops (t : Text) : Prop := ∀ c ∈ t.head?, isStop c = true

/-- A length that does not depend on a stop behind it. -/
def Local (length : Text → Nat) : Prop :=
  ∀ x b b' : Text, length (x ++ b) ≤ x.length → Stops b' → length (x ++ b') = length (x ++ b)

/-- A property that no stop has. -/
def Plain (p : Char → Bool) : Prop := ∀ c, isStop c = true → p c = false

theorem plain_of_cases {p : Char → Bool} (cases : p ' ' = false ∧ p ',' = false ∧ p '\r' = false ∧
    p '\n' = false ∧ p '/' = false) : Plain p := by
  intro c stop
  simp only [isStop, Bool.or_eq_true, beq_iff_eq] at stop
  rcases stop with (((rfl | rfl) | rfl) | rfl) | rfl
  · exact cases.1
  · exact cases.2.1
  · exact cases.2.2.1
  · exact cases.2.2.2.1
  · exact cases.2.2.2.2

/-- A run that ends within `x` does not see what follows. -/
theorem run_exchange {p : Char → Bool} (x b b' : Text) (within : run p (x ++ b) ≤ x.length)
    (other : run p (x ++ b) = x.length → ∀ c ∈ b'.head?, p c = false) :
    run p (x ++ b') = run p (x ++ b) := by
  induction x with
  | nil =>
    have ends := other (Nat.le_zero.mp within)
    rw [Nat.le_zero.mp within]
    cases b' with
    | nil => rfl
    | cons c b' => simp [run_cons, ends c rfl]
  | cons c x ih =>
    cases holds : p c with
    | false => simp [run_cons, holds]
    | true =>
      simp only [List.cons_append, run_cons, holds, if_true, List.length_cons] at within other ⊢
      rw [ih (by omega) fun equal => other (by omega)]

theorem Local.run {p : Char → Bool} (plain : Plain p) : Local (run p) :=
  fun x b b' within stops => run_exchange x b b' within fun _ c first => plain c (stops c first)

/-- Lengths one after the other. -/
theorem Local.andThen {first second : Text → Nat} (localFirst : Local first)
    (localSecond : Local second) : Local fun t => first t + second (t.drop (first t)) := by
  intro x b b' within stops
  simp only at within ⊢
  have same := localFirst x b b' (by omega) stops
  have inside : first (x ++ b) ≤ x.length := by omega
  rw [List.drop_append_of_le_length inside] at within ⊢
  rw [same, List.drop_append_of_le_length inside, localSecond _ b b' _ stops]
  rw [List.length_drop]
  omega

theorem Stops.eq_nil_or_cons {t : Text} (stops : Stops t) :
    t = [] ∨ ∃ c r, t = c :: r ∧ isStop c = true := by
  cases t with
  | nil => exact .inl rfl
  | cons c r => exact .inr ⟨c, r, rfl, stops c rfl⟩

theorem plain_isDigitPart : Plain isDigitPart := plain_of_cases (by decide)

theorem plain_isHexPart : Plain isHexPart := plain_of_cases (by decide)

theorem plain_isWordPart : Plain isWordPart := plain_of_cases (by decide)

theorem fraction_of_ne (c : Char) (t : Text) (other : c ≠ '.') : fraction (c :: t) = 0 := by
  unfold fraction
  split
  · simp_all
  · rfl

theorem Local.fraction : Local fraction := by
  intro x b b' within stops
  cases x with
  | nil =>
    rw [Nat.le_zero.mp within]
    rcases stops.eq_nil_or_cons with rfl | ⟨c, r, rfl, stop⟩
    · rfl
    · exact fraction_of_ne c r (by rintro rfl; cases stop)
  | cons c x =>
    by_cases point : c = '.'
    · subst point
      simp only [List.cons_append, Lexeme.fraction, List.length_cons] at within ⊢
      rw [Local.run plain_isDigitPart x b b' (by omega) stops]
    · simp only [List.cons_append, fraction_of_ne c _ point]

/-- An exponent has a mark and at least one digit. -/
theorem exponent_eq_zero_or (t : Text) : exponent t = 0 ∨ 2 ≤ exponent t := by
  have digits (mark : Nat) (t : Text) (positive : 0 < mark) :
      exponentDigits mark t = 0 ∨ 2 ≤ exponentDigits mark t := by
    rw [exponentDigits_eq]
    split <;> omega
  unfold exponent
  repeat' split
  · exact digits 2 _ (by decide)
  · exact digits 1 _ (by decide)
  all_goals exact .inl rfl

theorem exponent_of_stops (c : Char) (t : Text) (stops : Stops t) : exponent (c :: t) = 0 := by
  rcases stops.eq_nil_or_cons with rfl | ⟨s, r, rfl, stop⟩
  · simp [exponent]
  · have sign : ¬ (s = '+' ∨ s = '-') := by rintro (rfl | rfl) <;> cases stop
    simp [exponent, sign, exponentDigits_eq, run_cons, plain_isDigitPart s stop]

theorem exponentDigits_exchange (mark : Nat) (x b b' : Text)
    (within : exponentDigits mark (x ++ b) ≤ mark + x.length) (stops : Stops b') :
    exponentDigits mark (x ++ b') = exponentDigits mark (x ++ b) := by
  simp only [exponentDigits_eq] at within ⊢
  have inside : run isDigitPart (x ++ b) ≤ x.length := by
    split at within <;> omega
  rw [Local.run plain_isDigitPart x b b' inside stops]

theorem Local.exponent : Local exponent := by
  intro x b b' within stops
  cases x with
  | nil =>
    rw [Nat.le_zero.mp within]
    rcases stops.eq_nil_or_cons with rfl | ⟨c, r, rfl, stop⟩
    · rfl
    · have mark : ¬ (c = 'e' ∨ c = 'E') := by rintro (rfl | rfl) <;> cases stop
      simp [Lexeme.exponent, mark]
  | cons c x =>
    cases x with
    | nil =>
      have noExponent : Lexeme.exponent ([c] ++ b) = 0 := by
        have := exponent_eq_zero_or ([c] ++ b)
        simp only [List.length_singleton] at within
        omega
      rw [noExponent]
      exact exponent_of_stops c b' stops
    | cons s x =>
      by_cases mark : (c = 'e' || c = 'E') = true
      · simp only [List.cons_append, Lexeme.exponent, mark, if_true, List.length_cons] at within ⊢
        split
        · next sign =>
          rw [if_pos sign] at within
          exact exponentDigits_exchange 2 x b b' (by omega) stops
        · next sign =>
          rw [if_neg sign] at within
          exact exponentDigits_exchange 1 (s :: x) b b'
            (by simpa [Nat.add_comm] using within) stops
      · simp [Lexeme.exponent, mark]

theorem Local.bigMark : Local bigMark := by
  intro x b b' within stops
  cases x with
  | nil =>
    rw [Nat.le_zero.mp within]
    rcases stops.eq_nil_or_cons with rfl | ⟨c, r, rfl, stop⟩
    · rfl
    · simp only [List.nil_append, Lexeme.bigMark]
      split
      · simp_all [isStop]
      · rfl
  | cons c x =>
    simp only [List.cons_append, Lexeme.bigMark]
    split <;> simp_all

theorem Local.decimalTail : Local decimalTail :=
  (((Local.run plain_isDigitPart).andThen Local.fraction).andThen Local.exponent).andThen
    Local.bigMark

theorem basedTail?_of_stops (t : Text) (stops : Stops t) : basedTail? t = none := by
  rcases stops.eq_nil_or_cons with rfl | ⟨c, r, rfl, stop⟩
  · rfl
  · have other : ("xXoObB" : Text).contains c = false :=
      plain_of_cases (p := ("xXoObB" : Text).contains) (by decide) c stop
    rw [basedTail?_cons, if_neg fun both => by rw [other] at both; cases both.1]

theorem basedTail?_exchange (c : Char) (x b b' : Text)
    (within : (basedTail? (c :: (x ++ b))).getD 0 ≤ x.length + 1) (stops : Stops b') :
    basedTail? (c :: (x ++ b')) = basedTail? (c :: (x ++ b)) := by
  rw [basedTail?_cons] at within
  rw [basedTail?_cons, basedTail?_cons]
  by_cases digits : run isHexPart (x ++ b) = 0
  · have nothing := Local.run plain_isHexPart x b b' (by omega) stops
    simp [digits, nothing]
  · by_cases based : ("xXoObB" : Text).contains c = true
    · rw [if_pos ⟨based, digits⟩, Option.getD_some] at within
      have same := Local.run plain_isHexPart x b b' (by omega) stops
      have tail := (Local.run plain_isHexPart).andThen Local.bigMark x b b' (by simp only; omega)
        stops
      simp only [same] at tail
      simp only [same, if_pos (And.intro based digits)]
      congr 1
      omega
    · rw [if_neg fun both => based both.1, if_neg fun both => based both.1]

theorem Local.numberTail (c : Char) : Local (numberTail c) := by
  intro x b b' within stops
  unfold Lexeme.numberTail at within ⊢
  split
  · next zero =>
    rw [if_pos zero] at within
    cases x with
    | nil =>
      have nothing := Local.decimalTail [] [] b' (by decide) stops
      rw [Nat.le_zero.mp within, List.nil_append, basedTail?_of_stops b' stops]
      exact nothing
    | cons d x =>
      simp only [List.cons_append, List.length_cons] at within ⊢
      cases based : basedTail? (d :: (x ++ b)) with
      | none =>
        rw [based, Option.getD_none] at within
        rw [basedTail?_exchange d x b b' (by simp [based]) stops, based]
        exact Local.decimalTail (d :: x) b b' within stops
      | some n =>
        rw [based, Option.getD_some] at within
        rw [basedTail?_exchange d x b b' (by simpa [based] using within) stops, based]
        rfl
  · next zero =>
    rw [if_neg zero] at within
    exact Local.decimalTail x b b' within stops

theorem isStop_of_mem_operators : ∀ operator ∈ operators, ∀ c ∈ operator.tail, isStop c = false := by
  have stopless : operators.all (fun operator => operator.tail.all (!isStop ·)) = true := by decide
  intro operator member c inside
  have tail := List.all_eq_true.mp stopless operator member
  simpa using List.all_eq_true.mp tail c inside

private theorem find?_exchange {p q : Nat → Bool} {bound : Nat} (items : List Nat)
    (same : ∀ n ∈ items, n ≤ bound → q n = p n) (beyond : ∀ n ∈ items, bound < n → q n = false)
    (within : ∀ n ∈ items.find? p, n ≤ bound) : items.find? q = items.find? p := by
  induction items with
  | nil => rfl
  | cons n items ih =>
    have rest := ih (fun k member => same k (List.mem_cons_of_mem n member))
      (fun k member => beyond k (List.mem_cons_of_mem n member))
    by_cases inside : n ≤ bound
    · have equal := same n (by simp) inside
      cases holds : p n with
      | true => simp [equal, holds]
      | false => simpa [equal, holds] using rest (by simpa [holds] using within)
    · have fails := beyond n (by simp) (by omega)
      cases holds : p n with
      | true => exact absurd (within n (by simp [holds])) inside
      | false => simpa [fails, holds] using rest (by simpa [holds] using within)

theorem operatorTail?_exchange (c : Char) (x b b' : Text)
    (within : ∀ n ∈ operatorTail? c (x ++ b), n ≤ x.length) (stops : Stops b') :
    operatorTail? c (x ++ b') = operatorTail? c (x ++ b) := by
  refine find?_exchange _ (fun n _ inside => ?_) (fun n _ outside => ?_) within
  · simp only [List.take_append_of_le_length inside]
  · -- An operator would have to go on over the stop.
    rw [Bool.and_eq_false_iff]
    by_cases long : ((x ++ b').take n).length = n
    · right
      obtain ⟨d, r, rfl⟩ : ∃ d r, b' = d :: r := by
        cases b' with
        | nil => simp at long; omega
        | cons d r => exact ⟨d, r, rfl⟩
      rw [Bool.eq_false_iff]
      intro listed
      have member : d ∈ (x ++ d :: r).take n := by
        rw [List.take_append, List.mem_append]
        right
        obtain ⟨k, more⟩ : ∃ k, n - x.length = k + 1 := ⟨n - x.length - 1, by omega⟩
        simp [more]
      have := isStop_of_mem_operators _ (List.elem_iff.mp listed) d member
      simp [stops d rfl] at this
    · left
      simpa using long

theorem symbol?_exchange (c : Char) (x b b' : Text)
    (within : ∀ n ∈ operatorTail? c (x ++ b), n ≤ x.length) (stops : Stops b') :
    symbol? c (x ++ b') = symbol? c (x ++ b) := by
  rw [symbol?, symbol?, operatorTail?_exchange c x b b' within stops]

/-- What may follow `x` instead of `b` behind the first character of a lexeme: a stop that makes no
comment with a slash before it, and no end for a block comment that had none. -/
structure Exchange (c : Char) (x b b' : Text) : Prop where
  stops : Stops b'
  slash : c = '/' → x = [] → b'.head? ≠ some '/'
  unended : ∀ r, c = '/' → x = '*' :: r → blockTail? (r ++ b) = none → blockTail? (r ++ b') = none

theorem slash_of_other {t : Text} (slash : t.head? ≠ some '/') (star : t.head? ≠ some '*') :
    Lexeme.slash t = symbol? '/' t := by
  unfold Lexeme.slash
  split <;> simp_all

theorem Stops.head_ne_star {t : Text} (stops : Stops t) : t.head? ≠ some '*' := by
  intro first
  have := stops '*' first
  cases this

theorem symbol?_exchange_of_some {c : Char} {x b b' : Text} {kind : TokenKind} {n : Nat}
    (found : symbol? c (x ++ b) = some (kind, n)) (within : n ≤ x.length) (stops : Stops b') :
    symbol? c (x ++ b') = some (kind, n) := by
  obtain ⟨-, length⟩ := symbol?_eq_some found
  rw [symbol?_exchange c x b b' (fun k member => length k member ▸ within) stops, found]

/-- A slash by itself is an operator. -/
theorem symbol?_of_slash_zero {t : Text} {kind : TokenKind} (found : slash t = some (kind, 0)) :
    symbol? '/' t = some (kind, 0) := by
  unfold slash at found
  split at found
  · simp at found
  · split at found
    · simp at found
    · exact found
  · exact found

theorem slash_exchange {x b b' : Text} {kind : TokenKind} {n : Nat}
    (found : slash (x ++ b) = some (kind, n)) (within : n ≤ x.length)
    (inner : kind = .comment → n < x.length) (exchange : Exchange '/' x b b') :
    slash (x ++ b') = some (kind, n) := by
  have stops := exchange.stops
  cases x with
  | nil =>
    obtain rfl := Nat.le_zero.mp within
    rw [List.nil_append, slash_of_other (exchange.slash rfl rfl) stops.head_ne_star]
    exact symbol?_exchange_of_some (x := []) (symbol?_of_slash_zero found) (Nat.le_refl 0) stops
  | cons d x =>
    rw [List.cons_append] at found ⊢
    by_cases line : d = '/'
    · subst line
      rw [slash_line] at found ⊢
      cases found
      have short := inner rfl
      simp only [List.length_cons] at short
      rw [run_exchange x b b' (by omega) fun equal => absurd equal (by omega)]
    · by_cases block : d = '*'
      · subst block
        rw [slash_block] at found ⊢
        cases ends : blockTail? (x ++ b) with
        | none =>
          rw [ends] at found
          rw [exchange.unended x rfl rfl ends]
          exact symbol?_exchange_of_some (x := '*' :: x) found within stops
        | some k =>
          rw [ends] at found
          cases found
          rw [blockTail?_exchange x b b' ends (by simp only [List.length_cons] at within; omega)]
      · have other (t : Text) : slash (d :: t) = symbol? '/' (d :: t) :=
          slash_of_other (by simpa using line) (by simpa using block)
        rw [other] at found ⊢
        exact symbol?_exchange_of_some (x := d :: x) found within stops

theorem stringTail?_exchange {quote : Char} {multiline : Bool} {n : Nat} {x b : Text} (b' : Text)
    (mark : QuoteMark quote) (found : stringTail? quote multiline (x ++ b) = some n)
    (within : n ≤ x.length) : stringTail? quote multiline (x ++ b') = some n := by
  have plain : quote ≠ '\\' := by rcases mark with rfl | rfl | rfl <;> decide
  rw [stringTail?_eq_search _ _ plain] at found ⊢
  exact search_exchange x b b' found within

/-- A lexeme that lies within `x` does not see what follows: neither white space nor a line comment
reaches the end of `x`, and `b` may be exchanged. -/
theorem scan_exchange {c : Char} {x b b' : Text} {kind : TokenKind} {n : Nat}
    (found : scan c (x ++ b) = some (kind, n)) (within : n ≤ x.length)
    (inner : kind = .text ∨ kind = .comment → n < x.length) (exchange : Exchange c x b b') :
    scan c (x ++ b') = some (kind, n) := by
  have stops := exchange.stops
  cases space : isSpace c with
  | true =>
    rw [scan_of_space _ space] at found ⊢
    cases found
    have short := inner (.inl rfl)
    rw [run_exchange x b b' within fun equal => absurd equal (by omega)]
  | false =>
    cases word : isWordStart c with
    | true =>
      simp only [scan, space, word, if_true, Bool.false_eq_true, if_false] at found ⊢
      cases found
      rw [Local.run plain_isWordPart x b b' within stops]
    | false =>
      cases digit : c.isDigit with
      | true =>
        simp only [scan, space, word, digit, if_true, Bool.false_eq_true, if_false] at found ⊢
        cases found
        rw [Local.numberTail c x b b' within stops]
      | false =>
        by_cases slash : c = '/'
        · subst slash
          rw [scan_slash] at found ⊢
          exact slash_exchange found within (fun comment => inner (.inr comment)) exchange
        · by_cases mark : QuoteMark c
          · rw [scan_of_quote _ mark] at found ⊢
            obtain ⟨k, ends, equal⟩ := Option.map_eq_some_iff.mp found
            cases equal
            rw [stringTail?_exchange b' mark ends within, Option.map_some]
          · rw [scan_of_symbol _ space word digit slash mark] at found ⊢
            exact symbol?_exchange_of_some found within stops

/-- A stray stays one, when a quote that had no end has none behind the other text. -/
theorem scan_eq_none_exchange {c : Char} {x b b' : Text} (stray : scan c (x ++ b) = none)
    (stops : Stops b')
    (unclosed : QuoteMark c → stringTail? c (c == '\x60') (x ++ b') = none) :
    scan c (x ++ b') = none := by
  obtain ⟨space, word, digit, slash⟩ := scan_eq_none_cases stray
  by_cases mark : QuoteMark c
  · rw [scan_of_quote _ mark, unclosed mark, Option.map_none]
  · rw [scan_of_symbol _ space word digit slash mark] at stray ⊢
    rw [symbol?_exchange c x b b' _ stops, stray]
    intro n operator
    rw [symbol?, operator] at stray
    cases stray

end Lexeme

end KeyGloss
