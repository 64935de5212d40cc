import KeyGloss.Proofs.Token.Lexes
import KeyGloss.Proofs.Token.Lookahead

/-!
# The literals of a source

Only four characters matter to which string literals a source holds: the slash and the three quotes.
Every other character is inert, and a lexeme that starts with an inert character holds no other
(`scan_inert`). So the literals can be found without cutting the rest of the source into tokens
(`literals`), and they are those of the lexer (`lexFrom_literals`). A text of inert characters may be put
in anywhere before such a search, however it joins what follows it.
-/

namespace KeyGloss

namespace Lexeme

instance : DecidablePred QuoteMark := fun c =>
  inferInstanceAs (Decidable (c = '"' ∨ c = '\'' ∨ c = '\x60'))

/-- A character that opens neither a string nor a comment. -/
def isInert (c : Char) : Bool := !(c == '/' || c == '"' || c == '\'' || c == '\x60')

theorem isInert_iff {c : Char} : isInert c = true ↔ c ≠ '/' ∧ ¬ QuoteMark c := by
  simp [isInert, QuoteMark, and_assoc]

/-- A property that only inert characters have. -/
def Inert (p : Char → Bool) : Prop := ∀ c, p c = true → isInert c = true

theorem inert_of_cases {p : Char → Bool}
    (cases : p '/' = false ∧ p '"' = false ∧ p '\'' = false ∧ p '\x60' = false) : Inert p := by
  intro c holds
  rw [isInert_iff]
  refine ⟨?_, ?_⟩
  · rintro rfl
    simp [cases] at holds
  · rintro (rfl | rfl | rfl) <;> simp [cases] at holds

theorem inert_isSpace : Inert isSpace := inert_of_cases (by decide)

theorem inert_isWordPart : Inert isWordPart := inert_of_cases (by decide)

theorem inert_isDigitPart : Inert isDigitPart := inert_of_cases (by decide)

theorem inert_isHexPart : Inert isHexPart := inert_of_cases (by decide)

theorem run_le_run {p q : Char → Bool} (weaker : ∀ c, p c = true → q c = true) (t : Text) :
    run p t ≤ run q t := by
  induction t with
  | nil => exact Nat.le_refl 0
  | cons c t ih =>
    rw [run_cons, run_cons]
    split
    · next holds =>
      rw [if_pos (weaker c holds)]
      omega
    · exact Nat.zero_le _

theorem run_drop {p : Char → Bool} {t : Text} {n : Nat} (within : n ≤ run p t) :
    run p (t.drop n) = run p t - n := by
  induction n generalizing t with
  | zero => rfl
  | succ n ih =>
    cases t with
    | nil => exact absurd within (Nat.not_succ_le_zero n)
    | cons c t =>
      rw [run_cons] at within ⊢
      split
      · next holds =>
        rw [if_pos holds] at within
        rw [List.drop_succ_cons, ih (by omega)]
        omega
      · next fails =>
        rw [if_neg fails] at within
        omega

/-- A length that takes inert characters only. -/
def Spares (length : Text → Nat) : Prop := ∀ t, length t ≤ run isInert t

theorem Spares.run {p : Char → Bool} (inert : Inert p) : Spares (run p) := run_le_run inert

theorem Spares.andThen {first second : Text → Nat} (sparesFirst : Spares first)
    (sparesSecond : Spares second) : Spares fun t => first t + second (t.drop (first t)) := by
  intro t
  have one := sparesFirst t
  have other := sparesSecond (t.drop (first t))
  rw [run_drop one] at other
  simp only
  omega

theorem run_inert_cons {c : Char} (t : Text) (inert : isInert c = true) :
    run isInert (c :: t) = run isInert t + 1 := by
  rw [run_cons, if_pos inert]

theorem Spares.fraction : Spares fraction := by
  intro t
  unfold Lexeme.fraction
  split
  · next r =>
    have digits := Spares.run inert_isDigitPart r
    rw [run_inert_cons r (by decide)]
    omega
  · exact Nat.zero_le _

theorem Spares.exponent : Spares exponent := by
  have digits (mark : Nat) (t : Text) : exponentDigits mark t ≤ mark + Lexeme.run isInert t := by
    have := Spares.run inert_isDigitPart t
    rw [exponentDigits_eq]
    split <;> omega
  intro t
  unfold Lexeme.exponent
  split
  · next c r =>
    split
    · next marked =>
      have inert : isInert c = true :=
        inert_of_cases (p := fun c => c = 'e' || c = 'E') (by decide) c marked
      rw [run_inert_cons r inert]
      split
      · next s r =>
        split
        · next signed =>
          have inert : isInert s = true :=
            inert_of_cases (p := fun s => s = '+' || s = '-') (by decide) s signed
          have := digits 2 r
          rw [run_inert_cons r inert]
          omega
        · have := digits 1 (s :: r)
          omega
      · exact Nat.zero_le _
    · exact Nat.zero_le _
  · exact Nat.zero_le _

theorem Spares.bigMark : Spares bigMark := by
  intro t
  unfold Lexeme.bigMark
  split
  · next r =>
    rw [run_inert_cons r (by decide)]
    omega
  · exact Nat.zero_le _

theorem Spares.numberTail (c : Char) : Spares (numberTail c) := by
  have decimal : Spares decimalTail :=
    (((Spares.run inert_isDigitPart).andThen .fraction).andThen .exponent).andThen .bigMark
  have based (t : Text) : (basedTail? t).getD (decimalTail t) ≤ Lexeme.run isInert t := by
    cases t with
    | nil => exact decimal []
    | cons d t =>
      rw [basedTail?_cons]
      split
      · next both =>
        have inert : isInert d = true :=
          inert_of_cases (p := ("xXoObB" : Text).contains) (by decide) d both.1
        have digits := (Spares.run inert_isHexPart).andThen .bigMark t
        simp only at digits
        rw [Option.getD_some, run_inert_cons t inert]
        omega
      · exact decimal (d :: t)
  intro t
  unfold Lexeme.numberTail
  split
  · exact based t
  · exact decimal t

theorem le_run_of_all {p : Char → Bool} {t : Text} {n : Nat} (long : n ≤ t.length)
    (all : ∀ c ∈ t.take n, p c = true) : n ≤ run p t := by
  induction n generalizing t with
  | zero => exact Nat.zero_le _
  | succ n ih =>
    cases t with
    | nil => exact absurd long (Nat.not_succ_le_zero n)
    | cons c t =>
      simp only [List.take_succ_cons, List.mem_cons, forall_eq_or_imp] at all
      rw [run_cons, if_pos all.1]
      have := ih (Nat.le_of_succ_le_succ long) all.2
      omega

/-- No operator goes on with a slash or a quote. -/
theorem isInert_of_mem_operators {c : Char} {t : Text} (member : c :: t ∈ operators) :
    ∀ d ∈ t, isInert d = true := by
  have listed : operators.all (fun operator => operator.tail.all isInert) = true := by decide
  have here := List.all_eq_true.mp listed _ member
  simpa only [List.tail_cons, List.all_eq_true] using here

theorem symbol?_le_run {c : Char} {t : Text} {kind : TokenKind} {n : Nat}
    (found : symbol? c t = some (kind, n)) : n ≤ run isInert t := by
  unfold symbol? at found
  split at found
  · next k operator =>
    cases found
    have fits := List.find?_some operator
    simp only [Bool.and_eq_true, decide_eq_true_eq, List.length_take] at fits
    have member : c :: t.take n ∈ operators := List.elem_iff.mp fits.2
    exact le_run_of_all (by omega) (isInert_of_mem_operators member)
  · split at found
    · cases found
      exact Nat.zero_le _
    · cases found

theorem symbol?_not_string {c : Char} {t : Text} {kind : TokenKind} {n : Nat}
    (found : symbol? c t = some (kind, n)) : kind.isString = false := by
  obtain ⟨rfl | rfl, -⟩ := symbol?_eq_some found <;> rfl

/-- A lexeme that starts with an inert character holds no other, and is no string. -/
theorem scan_inert {c : Char} {t : Text} {kind : TokenKind} {n : Nat} (inert : isInert c = true)
    (found : scan c t = some (kind, n)) : n ≤ run isInert t ∧ kind.isString = false := by
  obtain ⟨slash, quote⟩ := isInert_iff.mp inert
  cases space : isSpace c with
  | true =>
    rw [scan_of_space _ space] at found
    cases found
    exact ⟨Spares.run inert_isSpace t, rfl⟩
  | false =>
    cases word : isWordStart c with
    | true =>
      simp only [scan, space, word, if_true, Bool.false_eq_true, if_false] at found
      cases found
      exact ⟨Spares.run inert_isWordPart t, rfl⟩
    | false =>
      cases digit : c.isDigit with
      | true =>
        simp only [scan, space, word, digit, if_true, Bool.false_eq_true, if_false] at found
        cases found
        exact ⟨Spares.numberTail c t, rfl⟩
      | false =>
        rw [scan_of_symbol _ space word digit slash quote] at found
        exact ⟨symbol?_le_run found, symbol?_not_string found⟩

/-- The length of a comment after its first slash. -/
def commentTail? : Text → Option Nat
  | '/' :: r => some (1 + run (· != '\n') r)
  | '*' :: r => (blockTail? r).map (1 + ·)
  | _ => none

theorem commentTail?_of_other {t : Text} (line : t.head? ≠ some '/') (block : t.head? ≠ some '*') :
    commentTail? t = none := by
  unfold commentTail?
  split <;> simp_all

/-- What starts with a slash is a comment, or an operator that goes on with inert characters. -/
theorem scan_slash_cases {t : Text} {kind : TokenKind} {n : Nat}
    (found : scan '/' t = some (kind, n)) :
    kind.isString = false ∧
      (commentTail? t = some n ∨ commentTail? t = none ∧ n ≤ run isInert t) := by
  rw [scan_slash] at found
  unfold slash at found
  split at found
  · cases found
    exact ⟨rfl, .inl rfl⟩
  · split at found
    · next n ends =>
      cases found
      exact ⟨rfl, .inl (by simp [commentTail?, ends])⟩
    · next unended =>
      exact ⟨symbol?_not_string found, .inr ⟨by simp [commentTail?, unended], symbol?_le_run found⟩⟩
  · next line block =>
    refine ⟨symbol?_not_string found, .inr ⟨?_, symbol?_le_run found⟩⟩
    apply commentTail?_of_other
    · intro first
      obtain ⟨r, rfl⟩ := List.head?_eq_some_iff.mp first
      exact line r rfl
    · intro first
      obtain ⟨r, rfl⟩ := List.head?_eq_some_iff.mp first
      exact block r rfl

end Lexeme

namespace Token

open Lexeme (isInert run scan QuoteMark quoteKind commentTail? stringTail?)

/-- The string literals among tokens. -/
def strings (tokens : List Token) : List Token := tokens.filter (·.kind.isString)

/-- The string literals of a source, found by its slashes and quotes alone; none when a template
has no end. -/
def literals : Text → Option (List Token)
  | [] => some []
  | c :: r =>
    if c = '/' then literals (r.drop ((commentTail? r).getD 0))
    else if QuoteMark c then
      match stringTail? c (c == '\x60') r with
      | some n => (literals (r.drop n)).map (⟨quoteKind c, c :: r.take n⟩ :: ·)
      | none => if c = '\x60' then none else literals r
    else literals r
termination_by t => t.length
decreasing_by
  all_goals simp only [List.length_cons, List.length_drop]; omega

theorem literals_slash (r : Text) :
    literals ('/' :: r) = literals (r.drop ((commentTail? r).getD 0)) := by
  rw [literals, if_pos rfl]

theorem literals_inert {c : Char} (r : Text) (inert : isInert c = true) :
    literals (c :: r) = literals r := by
  obtain ⟨slash, quote⟩ := Lexeme.isInert_iff.mp inert
  rw [literals, if_neg slash, if_neg quote]

theorem ne_slash_of_quoteMark {c : Char} (mark : QuoteMark c) : c ≠ '/' := by
  rintro rfl
  revert mark
  decide

theorem literals_string {c : Char} {r : Text} {n : Nat} (mark : QuoteMark c)
    (ends : stringTail? c (c == '\x60') r = some n) :
    literals (c :: r) = (literals (r.drop n)).map (⟨quoteKind c, c :: r.take n⟩ :: ·) := by
  rw [literals, if_neg (ne_slash_of_quoteMark mark), if_pos mark, ends]

theorem literals_stray {c : Char} {r : Text} (mark : QuoteMark c) (closed : c ≠ '\x60')
    (unended : stringTail? c false r = none) : literals (c :: r) = literals r := by
  rw [literals, if_neg (ne_slash_of_quoteMark mark), if_pos mark, beq_eq_false_iff_ne.mpr closed,
    unended]
  exact if_neg closed

theorem literals_append {u : Text} (v : Text) (inert : ∀ c ∈ u, isInert c = true) :
    literals (u ++ v) = literals v := by
  induction u with
  | nil => rfl
  | cons c u ih =>
    simp only [List.mem_cons, forall_eq_or_imp] at inert
    rw [List.cons_append, literals_inert _ inert.1, ih inert.2]

theorem literals_drop {t : Text} {n : Nat} (within : n ≤ run isInert t) :
    literals (t.drop n) = literals t := by
  induction n generalizing t with
  | zero => rfl
  | succ n ih =>
    cases t with
    | nil => rfl
    | cons c t =>
      rw [Lexeme.run_cons] at within
      split at within
      · next inert =>
        rw [List.drop_succ_cons, ih (by omega), literals_inert t inert]
      · omega

/-- One lexeme further: it is a literal, or the literals are those behind it. -/
theorem literals_lexeme {c : Char} {r : Text} {kind : TokenKind} {n : Nat}
    (rule : scan c r = some (kind, n)) :
    literals (c :: r) = (literals (r.drop n)).map
      fun rest => strings [⟨kind, c :: r.take n⟩] ++ rest := by
  by_cases slash : c = '/'
  · subst slash
    obtain ⟨other, comment | ⟨operator, inert⟩⟩ := Lexeme.scan_slash_cases rule
    · simp [literals_slash, comment, strings, other]
    · simp [literals_slash, operator, literals_drop inert, strings, other]
  · by_cases mark : QuoteMark c
    · rw [Lexeme.scan_of_quote _ mark] at rule
      obtain ⟨k, ends, equal⟩ := Option.map_eq_some_iff.mp rule
      cases equal
      have string : (quoteKind c).isString = true := by
        rcases mark with rfl | rfl | rfl <;> rfl
      simp [literals_string mark ends, strings, string]
    · have inert := Lexeme.isInert_iff.mpr ⟨slash, mark⟩
      obtain ⟨within, other⟩ := Lexeme.scan_inert inert rule
      simp [literals_inert r inert, literals_drop within, strings, other]

theorem literals_of_scan_eq_none {c : Char} {r : Text} (noRule : scan c r = none)
    (closed : c ≠ '\x60') : literals (c :: r) = literals r := by
  obtain ⟨-, -, -, slash⟩ := Lexeme.scan_eq_none_cases noRule
  by_cases mark : QuoteMark c
  · rw [Lexeme.scan_of_quote _ mark, Option.map_eq_none_iff, beq_eq_false_iff_ne.mpr closed] at noRule
    exact literals_stray mark closed noRule
  · exact literals_inert r (Lexeme.isInert_iff.mpr ⟨slash, mark⟩)

theorem strings_consStray (c : Char) (tokens : List Token) :
    strings (consStray c tokens) = strings tokens := by
  rcases consStray_cases c tokens with ⟨value, rest, rfl, equal⟩ | ⟨-, equal⟩ <;>
    simp [equal, strings, TokenKind.isString]

theorem strings_ofLexeme (language : Language) (kind : TokenKind) (value : Text) :
    strings [ofLexeme language kind value] = strings [⟨kind, value⟩] := by
  unfold ofLexeme
  split
  · next word => simp [strings, word.1, TokenKind.isString]
  · rfl

theorem strings_cons (token : Token) (tokens : List Token) :
    strings (token :: tokens) = strings [token] ++ strings tokens :=
  List.filter_append [token] tokens

/-- The literals of a source are the string tokens that the lexer finds, and they can be told
exactly when the lexer succeeds. -/
theorem lexFrom_literals (language : Language) (line : Nat) (source : Text) :
    (lexFrom language line source).toOption.map strings = literals source := by
  fun_induction lexFrom language line source with
  | case1 => simp [Except.toOption, strings, literals]
  | case2 line c r kind n rule value ih =>
    rw [literals_lexeme rule, ← ih]
    cases lexFrom language (line + Text.lineFeeds value) (r.drop n) with
    | error e => rfl
    | ok tokens =>
      simp only [Except.map, Except.toOption, Option.map_some]
      rw [strings_cons, strings_ofLexeme]
  | case3 line r noRule =>
    have unended : stringTail? '\x60' true r = none := by
      rw [Lexeme.scan_of_quote _ (.inr (.inr rfl)), Option.map_eq_none_iff] at noRule
      exact noRule
    have mark : QuoteMark '\x60' := .inr (.inr rfl)
    rw [literals, if_neg (by decide), if_pos mark]
    simp [unended, Except.toOption]
  | case4 line c r noRule closed ih =>
    rw [literals_of_scan_eq_none noRule closed, ← ih]
    cases lexFrom language line r with
    | error e => rfl
    | ok tokens => simp [Except.map, Except.toOption, strings_consStray]

/-- A source with literals can be cut into tokens, in either language. -/
theorem exists_lexes_of_literals (language : Language) {source : Text} {found : List Token}
    (literal : literals source = some found) :
    ∃ tokens, Lexes language source tokens ∧ strings tokens = found := by
  rw [← lexFrom_literals language 1 source] at literal
  obtain ⟨tokens, lexed, rfl⟩ := Option.map_eq_some_iff.mp literal
  refine ⟨tokens, lex_eq_ok_iff.mp (?_ : lexFrom language 1 source = .ok tokens), rfl⟩
  cases result : lexFrom language 1 source with
  | error e => simp [result, Except.toOption] at lexed
  | ok all => simpa [result, Except.toOption] using lexed

end Token

end KeyGloss
