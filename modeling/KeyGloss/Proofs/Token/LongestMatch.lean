import KeyGloss.Proofs.Token.Pattern

/-!
# The lexical rules as patterns

The rules are given once more, as patterns (`rules`). For each of them the lexer's own functions compute
the longest match: a search for the end of a string or a comment, runs of characters, the stages of a
number, the longest operator.
-/

namespace KeyGloss

open Pattern

namespace Lexeme

/-! ## The rules -/

def between (first last c : Char) : Bool := first ≤ c && c ≤ last

def isLetter (c : Char) : Bool := between 'A' 'Z' c || between 'a' 'z' c

def isDecimal (c : Char) : Bool := between '0' '9' c

/-- White space: `[ \t\r\n\x0C]+`. -/
def spacePattern : Pattern := plus (oneOf " \t\r\n\x0c")

/-- A comment up to the end of its line: `//[^\n]*`. -/
def linePattern : Pattern := literalThen "//" (.star (noneOf "\n"))

/-- What may be repeated in a block comment: no star, or stars before neither a star nor a slash. -/
def blockPart : Pattern := .alt (noneOf "*") (.seq (plus (oneOf "*")) (noneOf "*/"))

/-- What follows the opening of a block comment: `([^*]|\*+[^*/])*\*+/`. -/
def blockEnd : Pattern := .seq (.star blockPart) (.seq (plus (oneOf "*")) (literal "/"))

def blockPattern : Pattern := literalThen "/*" blockEnd

/-- What may be repeated in a string: a plain character, or a backslash and any character. -/
def quotedPart (special : Text) : Pattern :=
  .alt (noneOf special) (literalThen "\\" (.one fun _ => true))

/-- What follows the opening quote of a string. -/
def quotedEnd (quote : Char) (special : Text) : Pattern :=
  .seq (.star (quotedPart special)) (.one (· == quote))

/-- A string in a sort of quotes: `"([^"\\\n]|\\[\s\S])*"`, where the special characters are the quote, the
backslash and, but for templates, the line feed. -/
def quotedPattern (quote : Char) (special : Text) : Pattern :=
  .seq (.one (· == quote)) (quotedEnd quote special)

/-- Digits: `[0-9_]`. -/
def decimalPart (c : Char) : Bool := isDecimal c || c == '_'

def fractionPattern : Pattern := opt (literalThen "." (.star (.one decimalPart)))

def exponentPattern : Pattern :=
  opt (.seq (oneOf "eE") (.seq (opt (oneOf "+-")) (plus (.one decimalPart))))

def bigPattern : Pattern := opt (.one (· == 'n'))

/-- A decimal number: `[0-9][0-9_]*(\.[0-9_]*)?([eE][+-]?[0-9_]+)?n?`. -/
def decimalPattern : Pattern :=
  .seq (.one isDecimal)
    (.seq (.star (.one decimalPart)) (.seq fractionPattern (.seq exponentPattern bigPattern)))

/-- A number in another base: `0[xXoObB][0-9a-fA-F_]+n?`. -/
def basedPattern : Pattern :=
  literalThen "0" (.seq (oneOf "xXoObB")
    (.seq (plus (.one fun c => isDecimal c || between 'a' 'f' c || between 'A' 'F' c || c == '_'))
      bigPattern))

/-- A word: `[A-Za-z_$][A-Za-z0-9_$]*`. -/
def wordPattern : Pattern :=
  .seq (.one fun c => isLetter c || c == '_' || c == '$')
    (.star (.one fun c => isLetter c || isDecimal c || c == '_' || c == '$'))

/-- An operator that may go on with an equals sign. -/
def orAssign (p : Pattern) : Pattern := .seq p (opt (literal "="))

/-- An operator: `=>|\.\.\.|\?\?=?|\?\.|\?|:|&&=?|\|\|=?|\+\+|--|~|===?|!==?|=|(<<|>>>?|[-<>+*%&|^/!])=?`. -/
def operatorPattern : Pattern :=
  anyOf [literal "=>", literal "...", orAssign (literal "??"), literal "?.", literal "?", literal ":",
    orAssign (literal "&&"), orAssign (literal "||"), literal "++", literal "--", literal "~",
    orAssign (literal "=="), orAssign (literal "!="), literal "=",
    orAssign (anyOf [literal "<<", .seq (literal ">>") (opt (literal ">")), oneOf "-<>+*%&|^/!"])]

/-- A mark that stands for itself. -/
def markPattern : Pattern := oneOf "\x7b\x7d()[];,.#@\\"

/-- The lexical rules, each with the kind of its lexemes; words of every sort are names here. -/
def rules : List (TokenKind × Pattern) :=
  [(.text, spacePattern), (.comment, linePattern), (.blockComment, blockPattern),
    (.stringDouble, quotedPattern '"' "\"\\\n"), (.stringSingle, quotedPattern '\'' "'\\\n"),
    (.stringBacktick, quotedPattern '\x60' "\x60\\"), (.number, decimalPattern),
    (.number, basedPattern), (.name, wordPattern), (.operator, operatorPattern),
    (.punctuation, markPattern)]

/-! ## The sorts of characters -/

theorem isDecimal_eq : isDecimal = Char.isDigit := rfl

theorem decimalPart_eq : decimalPart = isDigitPart := rfl

theorem isLetter_eq : isLetter = Char.isAlpha := by
  funext c
  have upper : between 'A' 'Z' c = c.isUpper := (Bool.decide_and _ _).symm
  have lower : between 'a' 'z' c = c.isLower := rfl
  rw [isLetter, upper, lower]
  rfl

theorem wordStart_eq : (fun c => isLetter c || c == '_' || c == '$') = isWordStart := by
  rw [isLetter_eq]
  rfl

theorem wordPart_eq : (fun c => isLetter c || isDecimal c || c == '_' || c == '$') = isWordPart := by
  funext c
  have start : isWordStart c = (isLetter c || c == '_' || c == '$') := (congrFun wordStart_eq c).symm
  rw [isWordPart, start, ← isDecimal_eq]
  cases isLetter c <;> cases isDecimal c <;> simp

theorem space_eq : (" \t\r\n\x0c" : Text).contains = isSpace := by
  funext c
  simp [isSpace, Bool.or_assoc, beq_eq_decide]

theorem hexPart_eq :
    (fun c => isDecimal c || between 'a' 'f' c || between 'A' 'F' c || c == '_') = isHexPart := by
  funext c
  rw [isHexPart, isDigitPart, ← isDecimal_eq, between, between]
  cases isDecimal c <;> cases c == '_' <;> simp

/-! ## Strings -/

section Strings

variable {quote : Char} {multiline : Bool} {special : Text}

/-- What may be repeated in a string does not end it. -/
theorem search_part {u : Text} (mark : quote ≠ '\\')
    (stops : ∀ c, special.contains c = (c == quote || c == '\\' || (c == '\n' && !multiline)))
    (part : (quotedPart special).Matches u) (x : Text) :
    search quote multiline false (u ++ x) = (search quote multiline false x).map (· + u.length) := by
  rcases part with ⟨c, plain, rfl⟩ | escape
  · rw [Bool.not_eq_true', stops] at plain
    simp only [Bool.or_eq_false_iff, beq_eq_false_iff_ne] at plain
    obtain ⟨⟨other, noEscape⟩, inside⟩ := plain
    have goesOn : ¬ (decide (c = '\n') && !multiline) = true := by
      rw [← beq_eq_decide, inside]
      decide
    rw [List.singleton_append, search, if_neg other, if_neg goesOn, beq_eq_false_iff_ne.mpr noEscape]
    rfl
  · obtain ⟨_, rfl, d, -, rfl⟩ := matches_literalThen.mp escape
    have feed : ¬ (decide ('\\' = '\n') && !multiline) = true := by simp
    change search quote multiline false ('\\' :: d :: x) = _
    rw [search, if_neg (Ne.symm mark), if_neg feed, beq_self_eq_true, search, Option.map_map]
    rfl

/-- The end of a string is the longest match of what follows its opening quote. -/
theorem longest_quotedEnd (mark : quote ≠ '\\')
    (stops : ∀ c, special.contains c = (c == quote || c == '\\' || (c == '\n' && !multiline))) :
    Longest (quotedEnd quote special) (stringTail? quote multiline) where
  found {t n} ends := by
    refine ⟨stringTail?_le_length ends, ?_⟩
    fun_induction stringTail? quote multiline t generalizing n with
    | case1 => cases ends
    | case2 d r ih =>
      obtain ⟨k, later, rfl⟩ := Option.map_eq_some_iff.mp ends
      have escape : (quotedPart special).Matches ['\\', d] :=
        .inr (matches_literalThen.mpr ⟨[d], rfl, d, rfl, rfl⟩)
      exact matches_star_cons escape (ih later)
    | case3 r =>
      cases ends
      exact matches_star_nil ⟨quote, beq_self_eq_true quote, rfl⟩
    | case4 => cases ends
    | case5 c r free different dead ih =>
      obtain ⟨k, later, rfl⟩ := Option.map_eq_some_iff.mp ends
      have plain : (quotedPart special).Matches [c] := by
        refine .inl ⟨c, ?_, rfl⟩
        simp only [Bool.or_eq_true, decide_eq_true_eq, not_or] at dead
        rw [Bool.not_eq_true', stops]
        simpa [different, dead.1, beq_eq_decide] using dead.2
      exact matches_star_cons plain (ih later)
  bound rest matched := by
    obtain ⟨u, _, rfl, repeated, c, same, rfl⟩ := matched
    obtain rfl := beq_iff_eq.mp same
    refine ⟨u.length + 1, ?_, by simp⟩
    rw [stringTail?_eq_search multiline _ mark, List.append_assoc,
      skip_star (fun x part => search_part mark stops part x) _ repeated, List.singleton_append, search,
      if_pos rfl, Option.map_some, Nat.add_comm]

end Strings

/-! ## Block comments -/

/-- Stars before a character that neither is one nor ends a comment. -/
theorem blockTail?_stars {stars : Text} {d : Char} (x : Text) (all : ∀ c ∈ stars, c = '*') (star : d ≠ '*')
    (slash : d ≠ '/') :
    blockTail? (stars ++ d :: x) = (blockTail? x).map (· + (stars.length + 1)) := by
  have quiet : NoBlockEnd (stars ++ [d]) x := by
    induction stars with
    | nil => exact noBlockEnd_cons.mpr ⟨fun ends => star ends.1, noBlockEnd_nil x⟩
    | cons c stars ih =>
      refine noBlockEnd_cons.mpr ⟨fun ends => ?_, ih fun e member => all e (List.mem_cons_of_mem c member)⟩
      cases stars with
      | nil => exact slash (Option.some.inj ends.2)
      | cons e stars =>
        have first := all e (by simp)
        exact absurd (Option.some.inj ends.2) (by rw [first]; decide)
  simpa using blockTail?_append quiet

/-- Stars and a slash end a comment. -/
theorem blockTail?_end {stars : Text} (rest : Text) (all : ∀ c ∈ stars, c = '*') :
    blockTail? ('*' :: (stars ++ '/' :: rest)) = some (stars.length + 2) := by
  induction stars with
  | nil => rfl
  | cons c stars ih =>
    obtain rfl := all c (by simp)
    have goesOn : ¬ ('*' = '*' ∧ ('*' :: (stars ++ '/' :: rest)).head? = some '/') := by simp
    rw [List.cons_append, blockTail?_cons, if_neg goesOn,
      ih fun e member => all e (List.mem_cons_of_mem _ member)]
    rfl

theorem matches_stars {s : Text} :
    (plus (oneOf "*")).Matches s ↔ ∃ stars, s = '*' :: stars ∧ ∀ c ∈ stars, c = '*' := by
  have star (c : Char) : ("*" : Text).contains c = true ↔ c = '*' := by simp
  rw [plus, oneOf, matches_cons]
  simp only [matches_star_one, star]
  constructor
  · rintro ⟨c, stars, rfl, rfl, all⟩
    exact ⟨stars, rfl, all⟩
  · rintro ⟨stars, rfl, all⟩
    exact ⟨'*', stars, rfl, rfl, all⟩

/-- What may be repeated in a block comment does not end it. -/
theorem blockTail?_part {u : Text} (part : blockPart.Matches u) (x : Text) :
    blockTail? (u ++ x) = (blockTail? x).map (· + u.length) := by
  rcases part with ⟨c, plain, rfl⟩ | ⟨_, _, rfl, several, d, plain, rfl⟩
  · have other : c ≠ '*' := by simpa using plain
    rw [List.singleton_append, blockTail?_cons, if_neg fun ends => other ends.1]
    rfl
  · obtain ⟨stars, rfl, all⟩ := matches_stars.mp several
    obtain ⟨star, slash⟩ : d ≠ '*' ∧ d ≠ '/' := by simpa using plain
    have each : ∀ c ∈ '*' :: stars, c = '*' := List.forall_mem_cons.mpr ⟨rfl, all⟩
    simpa using blockTail?_stars x each star slash

/-- A comment may go on with a character that is no star. -/
theorem blockEnd_cons {c : Char} {v : Text} (other : c ≠ '*') (ends : blockEnd.Matches v) :
    blockEnd.Matches (c :: v) := by
  have part : blockPart.Matches [c] := .inl ⟨c, by simpa using other, rfl⟩
  exact matches_star_cons part ends

/-- A star that no slash follows goes to the stars behind it, or to the character behind it. -/
theorem blockEnd_star {v : Text} (apart : v.head? ≠ some '/') (ends : blockEnd.Matches v) :
    blockEnd.Matches ('*' :: v) := by
  obtain ⟨_, w, rfl, ⟨parts, rfl, each⟩, later⟩ := ends
  cases parts with
  | nil =>
    obtain ⟨_, slash, rfl, several, last⟩ := later
    obtain ⟨stars, rfl, all⟩ := matches_stars.mp several
    have longer : (plus (oneOf "*")).Matches ('*' :: '*' :: stars) :=
      matches_stars.mpr ⟨'*' :: stars, rfl, List.forall_mem_cons.mpr ⟨rfl, all⟩⟩
    exact matches_star_nil ⟨_, slash, rfl, longer, last⟩
  | cons part parts =>
    obtain ⟨here, others⟩ := List.forall_mem_cons.mp each
    have longer : blockPart.Matches ('*' :: part) := by
      refine .inr ?_
      rcases here with ⟨c, plain, rfl⟩ | ⟨_, last, rfl, several, other⟩
      · have star : c ≠ '*' := by simpa using plain
        have slash : c ≠ '/' := fun equal => apart (by simp [equal])
        exact ⟨['*'], [c], rfl, matches_stars.mpr ⟨[], rfl, by simp⟩, c, by simp [star, slash], rfl⟩
      · obtain ⟨stars, rfl, all⟩ := matches_stars.mp several
        refine ⟨'*' :: '*' :: stars, last, rfl, ?_, other⟩
        exact matches_stars.mpr ⟨'*' :: stars, rfl, List.forall_mem_cons.mpr ⟨rfl, all⟩⟩
    have rest : blockEnd.Matches (parts.flatten ++ w) := ⟨_, w, rfl, ⟨parts, rfl, others⟩, later⟩
    have text : '*' :: ((part :: parts).flatten ++ w) = ('*' :: part) ++ (parts.flatten ++ w) := by simp
    rw [text]
    exact matches_star_cons longer rest

/-- The first star and slash are the longest match of what follows the opening of a comment: no other
match is longer, as it could only end there as well. -/
theorem longest_blockEnd : Longest blockEnd blockTail? where
  found {t n} ends := by
    refine ⟨blockTail?_le_length ends, ?_⟩
    induction t generalizing n with
    | nil => cases ends
    | cons c r ih =>
      rw [blockTail?_cons] at ends
      split at ends
      · next closes =>
        obtain ⟨rfl, slash⟩ := closes
        obtain ⟨r, rfl⟩ := List.head?_eq_some_iff.mp slash
        cases ends
        have last : (literal "/").Matches ['/'] := (lists_literal _ _).mpr (by simp)
        exact matches_star_nil ⟨['*'], ['/'], rfl, matches_stars.mpr ⟨[], rfl, by simp⟩, last⟩
      · next goesOn =>
        obtain ⟨k, later, rfl⟩ := Option.map_eq_some_iff.mp ends
        rw [List.take_succ_cons]
        by_cases star : c = '*'
        · subst star
          refine blockEnd_star (fun slash => goesOn ⟨rfl, ?_⟩) (ih later)
          rw [List.head?_take] at slash
          split at slash
          · cases slash
          · exact slash
        · exact blockEnd_cons star (ih later)
  bound rest matched := by
    obtain ⟨u, _, rfl, repeated, _, _, rfl, several, slash⟩ := matched
    obtain ⟨stars, rfl, all⟩ := matches_stars.mp several
    obtain rfl := List.mem_singleton.mp ((lists_literal _ _).mp slash)
    have text : u ++ ('*' :: stars ++ ['/']) ++ rest = u ++ '*' :: (stars ++ '/' :: rest) := by simp
    refine ⟨stars.length + 2 + u.length, ?_, by simp; omega⟩
    refine (congrArg blockTail? text).trans ?_
    rw [skip_star (fun x part => blockTail?_part part x) _ repeated, blockTail?_end rest all, Option.map_some]

/-! ## Numbers -/

section Numbers

/-- The length of a run of at least one character. -/
theorem plusLength_eq (holds : Char → Bool) (t : Text) :
    consLength holds (fun t => some (run holds t)) t =
      if run holds t = 0 then none else some (run holds t) := by
  cases t with
  | nil => rfl
  | cons c t =>
    rw [consLength, run_cons]
    split <;> simp

theorem fractionLength_eq :
    optLength (consLength (· == '.') fun t => some (run decimalPart t)) =
      fun t => some (fraction t) := by
  funext t
  cases t with
  | nil => rfl
  | cons c t =>
    by_cases point : c = '.'
    · subst point
      simp [optLength, consLength, fraction, decimalPart_eq, Nat.add_comm]
    · simp [optLength, consLength, fraction, point]

theorem bigLength_eq :
    optLength (consLength (· == 'n') fun _ => some 0) = fun t => some (bigMark t) := by
  funext t
  cases t with
  | nil => rfl
  | cons c t =>
    by_cases mark : c = 'n'
    · subst mark
      rfl
    · simp [optLength, consLength, bigMark, mark]

/-- The length of an exponent behind its mark. -/
def exponentTail? : Text → Option Nat :=
  seqLength (optLength (consLength ("+-" : Text).contains fun _ => some 0))
    (consLength decimalPart fun t => some (run decimalPart t))

theorem exponentTail?_cons (c : Char) (t : Text) :
    (exponentTail? (c :: t)).map (· + 1) =
      if c = '+' || c = '-' then
        if run isDigitPart t = 0 then none else some (2 + run isDigitPart t)
      else if run isDigitPart (c :: t) = 0 then none else some (1 + run isDigitPart (c :: t)) := by
  have sign : ("+-" : Text).contains c = (decide (c = '+') || decide (c = '-')) := by simp
  rw [exponentTail?, decimalPart_eq, seqLength, optLength, consLength, sign]
  split
  · simp only [Option.map_some, Option.getD_some, Option.bind_some, List.drop_succ_cons, List.drop_zero,
      plusLength_eq]
    split
    · rfl
    · simp only [Option.map_some, Option.some.injEq]
      omega
  · simp only [Option.getD_none, Option.bind_some, List.drop_zero, plusLength_eq]
    split
    · rfl
    · simp only [Option.map_some, Option.some.injEq]
      omega

theorem exponentLength_eq :
    optLength (consLength ("eE" : Text).contains exponentTail?) = fun t => some (exponent t) := by
  funext t
  cases t with
  | nil => rfl
  | cons c t =>
    have mark : ("eE" : Text).contains c = (decide (c = 'e') || decide (c = 'E')) := by simp
    rw [optLength, consLength, mark, exponent.eq_def]
    simp only
    split
    · cases t with
      | nil => rfl
      | cons d t =>
        rw [exponentTail?_cons]
        simp only [exponentDigits_eq]
        split <;> split <;> rfl
    · rfl

theorem disjoint_of_all {cs : Text} {next : Char → Bool} (apart : cs.all (fun c => !next c) = true) :
    ∀ c, next c = true → cs.contains c = false := by
  intro c held
  rw [Bool.eq_false_iff]
  intro listed
  have other := List.all_eq_true.mp apart c (List.elem_iff.mp listed)
  simp [held] at other

theorem longest_big : Longest bigPattern fun t => some (bigMark t) :=
  bigLength_eq ▸ longest_one.opt

theorem starts_big : Starts bigPattern ("n" : Text).contains :=
  starts_one.opt.mono fun c same => by simpa using same

theorem longest_fraction : Longest fractionPattern fun t => some (fraction t) :=
  fractionLength_eq ▸ ((longest_star _).cons).opt

theorem starts_fraction : Starts fractionPattern (· == '.') := starts_cons.opt

theorem continues_fraction :
    Continues fractionPattern (fun t => some (fraction t)) fun c => c == '.' || decimalPart c :=
  fractionLength_eq ▸ (continues_star.cons).opt (longest_star _).cons starts_cons

/-- Before digits a sign is taken wherever there is one. -/
theorem sign_exact {u v : Text} (rest : Text) {n : Nat} (one : (opt (oneOf "+-")).Matches u)
    (other : (plus (.one decimalPart)).Matches v)
    (equal : optLength (consLength ("+-" : Text).contains fun _ => some 0) (u ++ (v ++ rest)) = some n) :
    u.length = n := by
  have never : Continues (oneOf "+-") (consLength ("+-" : Text).contains fun _ => some 0) fun _ => false :=
    continues_one
  have disjoint (c : Char) (sign : (("+-" : Text).contains c || false) = true) : decimalPart c = false := by
    have either : c = '+' ∨ c = '-' := by simpa using sign
    rcases either with rfl | rfl <;> decide
  rcases (never.opt longest_one starts_one).apart longest_one.opt starts_cons disjoint rest one other
    equal with exact | rfl
  · exact exact
  · obtain ⟨c, v, empty, -⟩ := matches_cons.mp other
    cases empty

theorem longest_exponentTail :
    Longest (.seq (opt (oneOf "+-")) (plus (.one decimalPart))) exponentTail? :=
  longest_one.opt.seq (longest_star _).cons fun rest _ one other equal => .inl (sign_exact rest one other equal)

theorem longest_exponent : Longest exponentPattern fun t => some (exponent t) :=
  exponentLength_eq ▸ longest_exponentTail.cons.opt

theorem starts_exponent : Starts exponentPattern ("eE" : Text).contains := starts_cons.opt

theorem continues_exponent :
    Continues exponentPattern (fun t => some (exponent t))
      fun c => ("eE" : Text).contains c || decimalPart c := by
  have inner : Continues (.seq (opt (oneOf "+-")) (plus (.one decimalPart))) exponentTail? decimalPart :=
    continues_star.cons.seq sign_exact
  exact exponentLength_eq ▸ inner.cons.opt longest_exponentTail.cons starts_cons

/-- The stages of a number: none of them can start with a character that the one before it goes on with. -/
theorem longest_decimalTail :
    Longest (.seq (.star (.one decimalPart)) (.seq fractionPattern (.seq exponentPattern bigPattern)))
      fun t => some (decimalTail t) := by
  have scaled := longest_exponent.seq_total continues_exponent longest_big starts_big
    (disjoint_of_all (by decide))
  have startsScaled : Starts (.seq exponentPattern bigPattern) ("eEn" : Text).contains :=
    (starts_exponent.seq starts_big).mono fun c first => by simpa [or_assoc] using first
  have pointed := longest_fraction.seq_total continues_fraction scaled startsScaled
    (disjoint_of_all (by decide))
  have startsPointed : Starts (.seq fractionPattern (.seq exponentPattern bigPattern))
      (".eEn" : Text).contains :=
    (starts_fraction.seq startsScaled).mono fun c first => by simpa using first
  have whole := (longest_star decimalPart).seq_total continues_star pointed startsPointed
    (disjoint_of_all (by decide))
  refine whole.congr fun t => ?_
  rw [decimalPart_eq]
  simp only [decimalTail, seqLength, Option.bind_some, Option.map_some, List.drop_drop, Nat.add_assoc]

theorem longest_basedTail :
    Longest (.seq (oneOf "xXoObB") (.seq (plus (.one isHexPart)) bigPattern)) basedTail? := by
  have hex : Longest (plus (.one isHexPart)) _ := (longest_star isHexPart).cons
  have digits := hex.seq_total continues_star.cons longest_big starts_big (disjoint_of_all (by decide))
  refine (digits.cons).congr fun t => ?_
  cases t with
  | nil => rfl
  | cons c t =>
    rw [consLength, basedTail?_cons, seqLength, plusLength_eq]
    by_cases based : ("xXoObB" : Text).contains c = true
    · by_cases noDigit : run isHexPart t = 0
      · simp [noDigit]
      · rw [if_pos based, if_neg noDigit, if_pos ⟨based, noDigit⟩]
        simp only [Option.bind_some, Option.map_some]
        congr 1
        omega
    · rw [if_neg based, if_neg fun both => based both.1]

end Numbers

/-! ## Operators -/

/-- The pattern of operators matches the operators. -/
theorem lists_operator : Lists operatorPattern operators := by
  have assign {p : Pattern} {words : List Text} (lists : Lists p words) :=
    lists.seq (lists_literal "=").opt
  have shifts := (lists_literal "<<").anyOf_cons <|
    ((lists_literal ">>").seq (lists_literal ">").opt).anyOf_cons <|
    (lists_oneOf "-<>+*%&|^/!").anyOf_cons lists_anyOf_nil
  have all := (lists_literal "=>").anyOf_cons <| (lists_literal "...").anyOf_cons <|
    (assign (lists_literal "??")).anyOf_cons <| (lists_literal "?.").anyOf_cons <|
    (lists_literal "?").anyOf_cons <| (lists_literal ":").anyOf_cons <|
    (assign (lists_literal "&&")).anyOf_cons <| (assign (lists_literal "||")).anyOf_cons <|
    (lists_literal "++").anyOf_cons <| (lists_literal "--").anyOf_cons <|
    (lists_literal "~").anyOf_cons <| (assign (lists_literal "==")).anyOf_cons <|
    (assign (lists_literal "!=")).anyOf_cons <| (lists_literal "=").anyOf_cons <|
    (assign shifts).anyOf_cons lists_anyOf_nil
  intro s
  refine (all s).trans ⟨fun member => ?_, fun member => ?_⟩
  · revert s
    decide
  · revert s
    decide

/-- The operator that is found is no shorter than any other one. -/
theorem operatorTail?_ge (c : Char) (t : Text) {k : Nat} (small : k ≤ 3) (within : (t.take k).length = k)
    (listed : c :: t.take k ∈ operators) : ∃ n, operatorTail? c t = some n ∧ k ≤ n := by
  have fits : (decide ((t.take k).length = k) && operators.contains (c :: t.take k)) = true := by
    simp [within, listed]
  have tried : k ∈ [3, 2, 1, 0] := by simp; omega
  have present : (operatorTail? c t).isSome = true := List.find?_isSome.mpr ⟨k, tried, fits⟩
  obtain ⟨n, found⟩ := Option.isSome_iff_exists.mp present
  refine ⟨n, found, ?_⟩
  obtain ⟨-, longer, shorter, split, refused⟩ := List.find?_eq_some_iff_append.mp found
  have decreasing : [3, 2, 1, 0].Pairwise (· > ·) := by decide
  rw [split] at tried decreasing
  rcases List.mem_append.mp tried with before | behind
  · have fails := refused k before
    rw [fits] at fails
    cases fails
  · rcases List.mem_cons.mp behind with rfl | later
    · exact Nat.le_refl _
    · have apart := (List.pairwise_append.mp decreasing).2.1
      exact Nat.le_of_lt ((List.pairwise_cons.mp apart).1 k later)

def operatorLength? : Text → Option Nat
  | [] => none
  | c :: t => (operatorTail? c t).map (· + 1)

theorem longest_operator : Longest operatorPattern operatorLength? where
  found {t n} equal := by
    cases t with
    | nil => cases equal
    | cons c t =>
      obtain ⟨k, found, rfl⟩ := Option.map_eq_some_iff.mp equal
      have fits := List.find?_some found
      simp only [Bool.and_eq_true, decide_eq_true_eq] at fits
      refine ⟨?_, (lists_operator _).mpr (List.elem_iff.mp fits.2)⟩
      have within := fits.1
      rw [List.length_take] at within
      rw [List.length_cons]
      omega
  bound {s} rest matched := by
    have member := (lists_operator s).mp matched
    have short : ∀ operator ∈ operators, 0 < operator.length ∧ operator.length ≤ 4 := by decide
    have length := short s member
    cases s with
    | nil => simp at length
    | cons c s =>
      rw [List.length_cons] at length
      have taken : (s ++ rest).take s.length = s := List.take_left
      obtain ⟨n, found, longer⟩ := operatorTail?_ge c (s ++ rest) (k := s.length) (by omega)
        (by rw [taken]) (by rwa [taken])
      exact ⟨n + 1, by rw [List.cons_append, operatorLength?, found, Option.map_some], by simpa using longer⟩

end Lexeme

end KeyGloss
