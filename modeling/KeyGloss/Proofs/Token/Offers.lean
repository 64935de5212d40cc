import KeyGloss.Proofs.Token.LongestMatch

/-!
# The lexer takes the longest match

What the rules offer at a character depends on the group that the character belongs to (`Offers`). Every
match of a rule stays within an offer (`offers_of_matches`), every offer is a match (`Offers.matches`), and
the lexer takes the longest one (`scan_longest`).
-/

namespace KeyGloss

open Pattern

namespace Lexeme

/-! ## Groups of characters -/

/-- The groups that the lexer tells apart by the first character of a lexeme. -/
inductive Group where
  | space
  | word
  | digit
  | slash
  | quote
  | symbol
  deriving DecidableEq

def group (c : Char) : Group :=
  if isSpace c then .space
  else if isWordStart c then .word
  else if c.isDigit then .digit
  else if c = '/' then .slash
  else if c = '"' ∨ c = '\'' ∨ c = '\x60' then .quote
  else .symbol

/-- What a group tells about its characters. -/
theorem group_spec (c : Char) :
    match group c with
    | .space => isSpace c = true
    | .word => isWordStart c = true
    | .digit => c.isDigit = true
    | .slash => c = '/'
    | .quote => QuoteMark c
    | .symbol => True := by
  by_cases space : isSpace c = true
  · simp [group, space]
  by_cases word : isWordStart c = true
  · simp [group, space, word]
  by_cases digit : c.isDigit = true
  · simp [group, space, word, digit]
  by_cases slash : c = '/'
  · subst slash
    exact (rfl : '/' = '/')
  by_cases quote : c = '"' ∨ c = '\'' ∨ c = '\x60'
  · simp [group, space, word, digit, slash, quote, QuoteMark]
  · simp [group, space, word, digit, slash, quote]

theorem isSpace_cases {c : Char} (space : isSpace c = true) :
    isWordStart c = false ∧ c.isDigit = false := by
  simp only [isSpace, Bool.or_eq_true, beq_iff_eq] at space
  rcases space with (((rfl | rfl) | rfl) | rfl) | rfl <;> decide

theorem isDigit_of_isWordStart {c : Char} (word : isWordStart c = true) : c.isDigit = false := by
  rw [Bool.eq_false_iff, ← isDecimal_eq]
  intro digit
  rw [← wordStart_eq] at word
  simp only [isLetter, isDecimal, between, Bool.or_eq_true, Bool.and_eq_true, decide_eq_true_eq,
    beq_iff_eq, Char.le_def, UInt32.le_iff_toNat_le] at word digit
  change 48 ≤ c.val.toNat ∧ c.val.toNat ≤ 57 at digit
  rcases word with ((upper | lower) | rfl) | rfl
  · change 65 ≤ c.val.toNat ∧ c.val.toNat ≤ 90 at upper
    omega
  · change 97 ≤ c.val.toNat ∧ c.val.toNat ≤ 122 at lower
    omega
  · exact absurd digit (by decide)
  · exact absurd digit (by decide)

theorem group_of_space {c : Char} (space : isSpace c = true) : group c = .space := by
  rw [group, if_pos space]

theorem group_of_word {c : Char} (word : isWordStart c = true) : group c = .word := by
  have visible : ¬ isSpace c = true := fun space => by simp [(isSpace_cases space).1] at word
  rw [group, if_neg visible, if_pos word]

theorem group_of_digit {c : Char} (digit : c.isDigit = true) : group c = .digit := by
  have visible : ¬ isSpace c = true := fun space => by simp [(isSpace_cases space).2] at digit
  have number : ¬ isWordStart c = true := fun word => by simp [isDigit_of_isWordStart word] at digit
  rw [group, if_neg visible, if_neg number, if_pos digit]

/-- The first characters of operators. -/
theorem group_of_operator {c : Char} {t : Text} (listed : c :: t ∈ operators) :
    group c = .slash ∨ group c = .symbol := by
  have all : ∀ operator ∈ operators, operator.head?.all
      (fun c => group c = .slash ∨ group c = .symbol) = true := by decide
  simpa using all _ listed

theorem group_of_mark {c : Char} (mark : punctuation.contains c = true) : group c = .symbol := by
  have all : punctuation.all (fun c => group c = .symbol) = true := by decide
  simpa using List.all_eq_true.mp all c (List.elem_iff.mp mark)

/-- The lexer goes by the group of the first character. -/
theorem scan_eq (c : Char) (r : Text) :
    scan c r =
      match group c with
      | .space => some (.text, run isSpace r)
      | .word => some (.name, run isWordPart r)
      | .digit => some (.number, numberTail c r)
      | .slash => slash r
      | .quote => (stringTail? c (c == '\x60') r).map (quoteKind c, ·)
      | .symbol => symbol? c r := by
  by_cases space : isSpace c = true
  · simp [group, scan, space]
  by_cases word : isWordStart c = true
  · simp [group, scan, space, word]
  by_cases digit : c.isDigit = true
  · simp [group, scan, space, word, digit]
  by_cases slash : c = '/'
  · subst slash
    rfl
  by_cases quote : c = '"' ∨ c = '\'' ∨ c = '\x60'
  · rw [scan_of_quote r quote]
    simp [group, space, word, digit, slash, quote]
  · rw [scan_of_symbol r (by simpa using space) (by simpa using word) (by simpa using digit) slash quote]
    simp [group, space, word, digit, slash, quote]

/-! ## What the rules offer -/

/-- A lexeme that the rules offer at a character: its kind, and how many of the following characters it
takes. -/
def Offers (c : Char) (r : Text) (kind : TokenKind) (n : Nat) : Prop :=
  match group c with
  | .space => kind = .text ∧ n = run isSpace r
  | .word => kind = .name ∧ n = run isWordPart r
  | .digit => kind = .number ∧ (n = decimalTail r ∨ c = '0' ∧ basedTail? r = some n)
  | .slash =>
    (kind = .comment ∧ ∃ t, r = '/' :: t ∧ n = 1 + run (· != '\n') t) ∨
      (kind = .blockComment ∧ ∃ t k, r = '*' :: t ∧ blockTail? t = some k ∧ n = 1 + k) ∨
      (kind = .operator ∧ operatorTail? c r = some n)
  | .quote => kind = quoteKind c ∧ stringTail? c (c == '\x60') r = some n
  | .symbol =>
    (kind = .operator ∧ operatorTail? c r = some n) ∨
      (kind = .punctuation ∧ punctuation.contains c = true ∧ n = 0)

/-! ## The rules measured by the lexer -/

theorem longest_space : Longest spacePattern (consLength isSpace fun t => some (run isSpace t)) := by
  have pattern : spacePattern = plus (.one isSpace) := by rw [← space_eq]; rfl
  rw [pattern]
  exact (longest_star _).cons

theorem longest_line :
    Longest linePattern (literalLength ['/', '/'] fun t => some (run (· != '\n') t)) := by
  have feed : (fun c => !("\n" : Text).contains c) = (· != '\n') := by
    funext c
    simp [bne, beq_eq_decide]
  have pattern : linePattern = literalThen ['/', '/'] (.star (.one (· != '\n'))) := by
    rw [← feed]
    rfl
  rw [pattern]
  exact (longest_star _).literalThen _

theorem longest_block : Longest blockPattern (literalLength ['/', '*'] blockTail?) :=
  longest_blockEnd.literalThen ['/', '*']

theorem longest_decimal : Longest decimalPattern (consLength Char.isDigit fun t => some (decimalTail t)) :=
  longest_decimalTail.cons

theorem longest_based : Longest basedPattern (consLength (· == '0') basedTail?) := by
  have pattern : basedPattern = literalThen ['0']
      (.seq (oneOf "xXoObB") (.seq (plus (.one isHexPart)) bigPattern)) := by
    rw [← hexPart_eq]
    rfl
  rw [pattern]
  exact longest_basedTail.literalThen ['0']

theorem longest_word : Longest wordPattern (consLength isWordStart fun t => some (run isWordPart t)) := by
  rw [wordPattern, wordStart_eq, wordPart_eq]
  exact (longest_star _).cons

theorem longest_mark : Longest markPattern (consLength punctuation.contains fun _ => some 0) := longest_one

/-- The rule of a sort of strings. -/
structure QuoteRule (quote : Char) (special : Text) : Prop where
  mark : QuoteMark quote
  stops : ∀ c, special.contains c = (c == quote || c == '\\' || (c == '\n' && !(quote == '\x60')))

theorem QuoteRule.longest {quote : Char} {special : Text} (rule : QuoteRule quote special) :
    Longest (quotedPattern quote special)
      (consLength (· == quote) (stringTail? quote (quote == '\x60'))) := by
  have escape : quote ≠ '\\' := by
    rcases rule.mark with rfl | rfl | rfl <;> decide
  exact (longest_quotedEnd escape rule.stops).cons

theorem quoteRule_double : QuoteRule '"' "\"\\\n" :=
  ⟨.inl rfl, fun c => by simp [beq_eq_decide, Bool.or_assoc]⟩

theorem quoteRule_single : QuoteRule '\'' "'\\\n" :=
  ⟨.inr (.inl rfl), fun c => by simp [beq_eq_decide, Bool.or_assoc]⟩

theorem quoteRule_backtick : QuoteRule '\x60' "\x60\\" :=
  ⟨.inr (.inr rfl), fun c => by simp [beq_eq_decide]⟩

/-! ## Matches and offers -/

/-- `takes c r n` tells that the longest match of a pattern at `c` takes `n` of the characters behind. -/
structure Found (p : Pattern) (takes : Char → Text → Nat → Prop) : Prop where
  sound : ∀ {c r n}, takes c r n → n ≤ r.length ∧ p.Matches (c :: r.take n)
  bound : ∀ {c r s rest}, p.Matches s → s ++ rest = c :: r → ∃ n, takes c r n ∧ s.length ≤ n + 1

section Found

variable {p : Pattern} {g : Text → Option Nat}

theorem Found.of_longest {length? : Text → Option Nat} {takes : Char → Text → Nat → Prop}
    (longest : Longest p length?)
    (first : ∀ c r n, length? (c :: r) = some n ↔ ∃ k, takes c r k ∧ n = k + 1) : Found p takes where
  sound {c r n} taken := by
    obtain ⟨within, matched⟩ := longest.found ((first c r (n + 1)).mpr ⟨n, taken, rfl⟩)
    exact ⟨Nat.le_of_succ_le_succ within, matched⟩
  bound {c r s rest} matched text := by
    obtain ⟨n, measured, within⟩ := longest.bound rest matched
    rw [text] at measured
    obtain ⟨k, taken, rfl⟩ := (first c r n).mp measured
    exact ⟨k, taken, within⟩

theorem Found.of_cons {holds : Char → Bool} (longest : Longest p (consLength holds g)) :
    Found p fun c r n => holds c = true ∧ g r = some n := by
  refine .of_longest longest fun c r n => ?_
  rw [consLength_eq_some]
  simp only [and_assoc, exists_and_left]

theorem Found.of_pair {a b : Char} (longest : Longest p (literalLength [a, b] g)) :
    Found p fun c r n => c = a ∧ ∃ t k, r = b :: t ∧ g t = some k ∧ n = 1 + k := by
  refine .of_longest longest fun c r n => ?_
  change consLength (· == a) (consLength (· == b) g) (c :: r) = some n ↔ _
  rw [consLength_eq_some]
  constructor
  · rintro ⟨same, j, inner, rfl⟩
    cases r with
    | nil => cases inner
    | cons d t =>
      obtain ⟨again, k, found, rfl⟩ := consLength_eq_some.mp inner
      rw [beq_iff_eq.mp again, beq_iff_eq.mp same]
      exact ⟨1 + k, ⟨rfl, t, k, rfl, found, rfl⟩, by omega⟩
  · rintro ⟨_, ⟨rfl, t, k, rfl, found, rfl⟩, rfl⟩
    refine ⟨beq_self_eq_true c, k + 1, ?_, by omega⟩
    exact consLength_eq_some.mpr ⟨beq_self_eq_true b, k, found, rfl⟩

theorem found_operator : Found operatorPattern fun c r n => operatorTail? c r = some n := by
  refine .of_longest longest_operator fun c r n => ?_
  rw [operatorLength?, Option.map_eq_some_iff]
  simp only [eq_comm]

end Found

section Offers

variable {c : Char} {r : Text} {kind : TokenKind} {n : Nat}

theorem QuoteRule.offers {quote : Char} {special s rest : Text} (rule : QuoteRule quote special)
    (matched : (quotedPattern quote special).Matches s) (text : s ++ rest = c :: r) :
    ∃ n, Offers c r (quoteKind quote) n ∧ s.length ≤ n + 1 := by
  obtain ⟨n, ⟨same, ends⟩, within⟩ := (Found.of_cons rule.longest).bound matched text
  obtain rfl := beq_iff_eq.mp same
  refine ⟨n, ?_, within⟩
  have quote : group c = .quote := by rcases rule.mark with rfl | rfl | rfl <;> decide
  rw [Offers, quote]
  exact ⟨rfl, ends⟩

/-- A match of a rule is no longer than what the rule offers. -/
theorem offers_of_matches {rule : TokenKind × Pattern} {s rest : Text} (listed : rule ∈ rules)
    (matched : rule.2.Matches s) (text : s ++ rest = c :: r) :
    ∃ n, Offers c r rule.1 n ∧ s.length ≤ n + 1 := by
  simp only [rules, List.mem_cons, List.not_mem_nil, or_false] at listed
  rcases listed with rfl | rfl | rfl | rfl | rfl | rfl | rfl | rfl | rfl | rfl | rfl
  · obtain ⟨n, ⟨space, length⟩, within⟩ := (Found.of_cons longest_space).bound matched text
    refine ⟨n, ?_, within⟩
    rw [Offers, group_of_space space]
    exact ⟨rfl, (Option.some.inj length).symm⟩
  · obtain ⟨n, ⟨rfl, t, k, again, length, equal⟩, within⟩ :=
      (Found.of_pair longest_line).bound matched text
    obtain rfl := Option.some.inj length
    exact ⟨n, .inl ⟨rfl, t, again, equal⟩, within⟩
  · obtain ⟨n, ⟨rfl, t, k, star, ends, equal⟩, within⟩ :=
      (Found.of_pair longest_block).bound matched text
    exact ⟨n, .inr (.inl ⟨rfl, t, k, star, ends, equal⟩), within⟩
  · exact quoteRule_double.offers matched text
  · exact quoteRule_single.offers matched text
  · exact quoteRule_backtick.offers matched text
  · obtain ⟨n, ⟨digit, length⟩, within⟩ := (Found.of_cons longest_decimal).bound matched text
    refine ⟨n, ?_, within⟩
    rw [Offers, group_of_digit digit]
    exact ⟨rfl, .inl (Option.some.inj length).symm⟩
  · obtain ⟨n, ⟨zero, based⟩, within⟩ := (Found.of_cons longest_based).bound matched text
    obtain rfl := beq_iff_eq.mp zero
    exact ⟨n, ⟨rfl, .inr ⟨rfl, based⟩⟩, within⟩
  · obtain ⟨n, ⟨word, length⟩, within⟩ := (Found.of_cons longest_word).bound matched text
    refine ⟨n, ?_, within⟩
    rw [Offers, group_of_word word]
    exact ⟨rfl, (Option.some.inj length).symm⟩
  · obtain ⟨n, found, within⟩ := found_operator.bound matched text
    have first := (lists_operator _).mp (found_operator.sound found).2
    refine ⟨n, ?_, within⟩
    rw [Offers]
    rcases group_of_operator first with slash | symbol
    · rw [slash]
      exact .inr (.inr ⟨rfl, found⟩)
    · rw [symbol]
      exact .inl ⟨rfl, found⟩
  · obtain ⟨n, ⟨mark, length⟩, within⟩ := (Found.of_cons longest_mark).bound matched text
    refine ⟨n, ?_, within⟩
    rw [Offers, group_of_mark mark]
    exact .inr ⟨rfl, mark, (Option.some.inj length).symm⟩

/-- The rules of strings by their quotes. -/
theorem exists_quoteRule (mark : QuoteMark c) :
    ∃ special, QuoteRule c special ∧ (quoteKind c, quotedPattern c special) ∈ rules := by
  rcases mark with rfl | rfl | rfl
  · exact ⟨_, quoteRule_double, by simp [rules, quoteKind]⟩
  · exact ⟨_, quoteRule_single, by simp [rules, quoteKind]⟩
  · exact ⟨_, quoteRule_backtick, by simp [rules, quoteKind]⟩

/-- What is offered is matched by a rule. -/
theorem Offers.matches (offers : Offers c r kind n) :
    n ≤ r.length ∧ ∃ rule ∈ rules, rule.1 = kind ∧ rule.2.Matches (c :: r.take n) := by
  have of_found {p : Pattern} {takes : Char → Text → Nat → Prop} (listed : (kind, p) ∈ rules)
      (found : Found p takes) (taken : takes c r n) :
      n ≤ r.length ∧ ∃ rule ∈ rules, rule.1 = kind ∧ rule.2.Matches (c :: r.take n) := by
    obtain ⟨within, matched⟩ := found.sound taken
    exact ⟨within, (kind, p), listed, rfl, matched⟩
  have spec := group_spec c
  unfold Offers at offers
  cases sort : group c with
  | space =>
    rw [sort] at spec offers
    obtain ⟨rfl, rfl⟩ := offers
    exact of_found (by simp [rules]) (.of_cons longest_space) ⟨spec, rfl⟩
  | word =>
    rw [sort] at spec offers
    obtain ⟨rfl, rfl⟩ := offers
    exact of_found (by simp [rules]) (.of_cons longest_word) ⟨spec, rfl⟩
  | digit =>
    rw [sort] at spec offers
    obtain ⟨rfl, rfl | ⟨rfl, based⟩⟩ := offers
    · exact of_found (by simp [rules]) (.of_cons longest_decimal) ⟨spec, rfl⟩
    · exact of_found (by simp [rules]) (.of_cons longest_based) ⟨rfl, based⟩
  | slash =>
    rw [sort] at spec offers
    rcases offers with ⟨rfl, t, again, length⟩ | ⟨rfl, t, k, star, ends, length⟩ | ⟨rfl, found⟩
    · exact of_found (by simp [rules]) (.of_pair longest_line) ⟨spec, t, _, again, rfl, length⟩
    · exact of_found (by simp [rules]) (.of_pair longest_block) ⟨spec, t, k, star, ends, length⟩
    · exact of_found (by simp [rules]) found_operator found
  | quote =>
    rw [sort] at spec offers
    obtain ⟨rfl, ends⟩ := offers
    obtain ⟨special, rule, listed⟩ := exists_quoteRule spec
    exact of_found listed (.of_cons rule.longest) ⟨beq_self_eq_true c, ends⟩
  | symbol =>
    rw [sort] at offers
    rcases offers with ⟨rfl, found⟩ | ⟨rfl, mark, rfl⟩
    · exact of_found (by simp [rules]) found_operator found
    · exact of_found (by simp [rules]) (.of_cons longest_mark) ⟨mark, rfl⟩

/-! ## The lexer takes the longest offer -/

/-- A number in another base goes on where a decimal one would end at once. -/
theorem decimalTail_of_based (based : basedTail? r = some n) : decimalTail r = 0 := by
  cases r with
  | nil => cases based
  | cons d t =>
    have mark : ("xXoObB" : Text).contains d = true := by
      rw [basedTail?_cons] at based
      split at based
      · next both => exact both.1
      · cases based
    have either : d = 'x' ∨ d = 'X' ∨ d = 'o' ∨ d = 'O' ∨ d = 'b' ∨ d = 'B' := by simpa using mark
    rcases either with rfl | rfl | rfl | rfl | rfl | rfl <;> rfl

theorem numberTail_longest (c : Char) (r : Text) :
    (numberTail c r = decimalTail r ∨ c = '0' ∧ basedTail? r = some (numberTail c r)) ∧
      decimalTail r ≤ numberTail c r ∧
      ∀ k, c = '0' ∧ basedTail? r = some k → k ≤ numberTail c r := by
  unfold numberTail
  by_cases zero : c = '0'
  · rw [if_pos zero]
    cases based : basedTail? r with
    | none => exact ⟨.inl rfl, Nat.le_refl _, fun k found => by cases found.2⟩
    | some n =>
      refine ⟨.inr ⟨zero, rfl⟩, ?_, fun k found => ?_⟩
      · rw [decimalTail_of_based based]
        exact Nat.zero_le _
      · cases found.2
        exact Nat.le_refl _
  · rw [if_neg zero]
    exact ⟨.inl rfl, Nat.le_refl _, fun k found => absurd found.1 zero⟩

/-- Before a slash or a star a slash is an operator of its own. -/
theorem operatorTail?_slash {d : Char} {t : Text} {k : Nat} (comment : d = '/' ∨ d = '*')
    (found : operatorTail? '/' (d :: t) = some k) : k = 0 := by
  have listed : ∀ operator ∈ operators, operator.head? = some '/' →
      operator = ['/'] ∨ operator.tail.head? ≠ some '/' ∧ operator.tail.head? ≠ some '*' := by decide
  have alone : symbol? '/' (d :: t) = some (.operator, 0) := by
    refine symbol?_alone (by decide) fun operator member first => ?_
    refine (listed operator member first).imp_right fun other => ?_
    rcases comment with rfl | rfl
    · exact other.1
    · exact other.2
  exact (symbol?_eq_some alone).2 k found

theorem symbol?_slash (t : Text) : ∃ n, operatorTail? '/' t = some n ∧ symbol? '/' t = some (.operator, n) := by
  obtain ⟨n, found⟩ := Option.ne_none_iff_exists'.mp (operatorTail?_slash_ne_none t)
  exact ⟨n, found, by rw [symbol?, found]⟩

/-- No mark is an operator as well. -/
theorem operatorTail?_mark (mark : punctuation.contains c = true) : operatorTail? c r ≠ some 0 := by
  intro found
  have listed : operators.contains [c] = true := by simpa using List.find?_some found
  have apart : punctuation.all (fun c => !operators.contains [c]) = true := by decide
  have other := List.all_eq_true.mp apart c (List.elem_iff.mp mark)
  rw [listed] at other
  cases other

/-- What is offered at a slash. -/
theorem slash_longest (found : slash r = some (kind, n)) (sort : group c = .slash) (first : c = '/') :
    Offers c r kind n ∧ ∀ other k, Offers c r other k → k ≤ n ∧ (k = n → other = kind) := by
  subst first
  unfold Offers
  simp only [sort]
  unfold slash at found
  split at found
  · next t =>
    cases found
    refine ⟨.inl ⟨rfl, t, rfl, rfl⟩, fun other k offered => ?_⟩
    rcases offered with ⟨rfl, t', equal, rfl⟩ | ⟨rfl, t', k, equal, -⟩ | ⟨rfl, operator⟩
    · cases equal
      exact ⟨Nat.le_refl _, fun _ => rfl⟩
    · cases equal
    · obtain rfl := operatorTail?_slash (.inl rfl) operator
      exact ⟨Nat.zero_le _, fun equal => by omega⟩
  · next t =>
    split at found
    · next m ends =>
      cases found
      refine ⟨.inr (.inl ⟨rfl, t, m, rfl, ends, rfl⟩), fun other k offered => ?_⟩
      rcases offered with ⟨rfl, t', equal, -⟩ | ⟨rfl, t', k, equal, again, rfl⟩ | ⟨rfl, operator⟩
      · cases equal
      · cases equal
        obtain rfl := Option.some.inj (ends.symm.trans again)
        exact ⟨Nat.le_refl _, fun _ => rfl⟩
      · obtain rfl := operatorTail?_slash (.inr rfl) operator
        exact ⟨Nat.zero_le _, fun equal => by omega⟩
    · next unended =>
      obtain ⟨m, operator, symbol⟩ := symbol?_slash ('*' :: t)
      cases found.symm.trans symbol
      refine ⟨.inr (.inr ⟨rfl, operator⟩), fun other k offered => ?_⟩
      rcases offered with ⟨rfl, t', equal, -⟩ | ⟨rfl, t', k, equal, ends, -⟩ | ⟨rfl, again⟩
      · cases equal
      · cases equal
        rw [unended] at ends
        cases ends
      · obtain rfl := Option.some.inj (operator.symm.trans again)
        exact ⟨Nat.le_refl _, fun _ => rfl⟩
  · next noLine noBlock =>
    obtain ⟨m, operator, symbol⟩ := symbol?_slash r
    cases found.symm.trans symbol
    refine ⟨.inr (.inr ⟨rfl, operator⟩), fun other k offered => ?_⟩
    rcases offered with ⟨rfl, t', equal, -⟩ | ⟨rfl, t', k, equal, -⟩ | ⟨rfl, again⟩
    · exact absurd equal (noLine t')
    · exact absurd equal (noBlock t')
    · obtain rfl := Option.some.inj (operator.symm.trans again)
      exact ⟨Nat.le_refl _, fun _ => rfl⟩

/-- The lexer takes the longest of the offers, and no other kind offers one as long. -/
theorem scan_longest (found : scan c r = some (kind, n)) :
    Offers c r kind n ∧ ∀ other k, Offers c r other k → k ≤ n ∧ (k = n → other = kind) := by
  have spec := group_spec c
  rw [scan_eq] at found
  cases sort : group c with
  | slash =>
    rw [sort] at spec found
    exact slash_longest found sort spec
  | space =>
    rw [sort] at found
    cases found
    unfold Offers
    rw [sort]
    refine ⟨⟨rfl, rfl⟩, ?_⟩
    rintro other k ⟨rfl, rfl⟩
    exact ⟨Nat.le_refl _, fun _ => rfl⟩
  | word =>
    rw [sort] at found
    cases found
    unfold Offers
    rw [sort]
    refine ⟨⟨rfl, rfl⟩, ?_⟩
    rintro other k ⟨rfl, rfl⟩
    exact ⟨Nat.le_refl _, fun _ => rfl⟩
  | digit =>
    rw [sort] at found
    cases found
    obtain ⟨taken, decimal, based⟩ := numberTail_longest c r
    unfold Offers
    rw [sort]
    refine ⟨⟨rfl, taken⟩, ?_⟩
    rintro other k ⟨rfl, rfl | zero⟩
    · exact ⟨decimal, fun _ => rfl⟩
    · exact ⟨based k zero, fun _ => rfl⟩
  | quote =>
    rw [sort] at found
    obtain ⟨m, ends, equal⟩ := Option.map_eq_some_iff.mp found
    cases equal
    unfold Offers
    rw [sort]
    refine ⟨⟨rfl, ends⟩, ?_⟩
    rintro other k ⟨rfl, again⟩
    obtain rfl := Option.some.inj (ends.symm.trans again)
    exact ⟨Nat.le_refl _, fun _ => rfl⟩
  | symbol =>
    rw [sort] at found
    unfold Offers
    rw [sort]
    simp only [symbol?] at found
    split at found
    · next m operator =>
      cases found
      refine ⟨.inl ⟨rfl, operator⟩, ?_⟩
      rintro other k (⟨rfl, again⟩ | ⟨rfl, mark, rfl⟩)
      · obtain rfl := Option.some.inj (operator.symm.trans again)
        exact ⟨Nat.le_refl _, fun _ => rfl⟩
      · refine ⟨Nat.zero_le _, fun equal => ?_⟩
        subst equal
        exact absurd operator (operatorTail?_mark mark)
    · next noTail =>
      split at found
      · next mark =>
        cases found
        refine ⟨.inr ⟨rfl, mark, rfl⟩, ?_⟩
        rintro other k (⟨rfl, again⟩ | ⟨rfl, -, rfl⟩)
        · rw [noTail] at again
          cases again
        · exact ⟨Nat.le_refl _, fun _ => rfl⟩
      · cases found

/-- Where the lexer finds nothing, nothing is offered. -/
theorem not_offers_of_scan (noRule : scan c r = none) : ¬ Offers c r kind n := by
  rw [scan_eq] at noRule
  unfold Offers
  cases sort : group c with
  | space =>
    rw [sort] at noRule
    cases noRule
  | word =>
    rw [sort] at noRule
    cases noRule
  | digit =>
    rw [sort] at noRule
    cases noRule
  | slash =>
    rw [sort] at noRule
    exact absurd noRule (slash_ne_none r)
  | quote =>
    rw [sort] at noRule
    rintro ⟨-, ends⟩
    rw [ends] at noRule
    cases noRule
  | symbol =>
    rw [sort] at noRule
    simp only [symbol?] at noRule
    split at noRule
    · cases noRule
    · next noOperator =>
      split at noRule
      · cases noRule
      · next noMark =>
        rintro (⟨-, operator⟩ | ⟨-, mark, -⟩)
        · rw [noOperator] at operator
          cases operator
        · exact noMark mark

end Offers

end Lexeme

end KeyGloss
