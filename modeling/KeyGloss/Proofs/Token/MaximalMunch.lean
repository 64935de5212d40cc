import KeyGloss.Proofs.Token.Offers
import KeyGloss.Proofs.Token.Pieces

/-!
# Tokens are longest matches

`MaximalMunch language source tokens` tells by the lexical rules alone how a source is to be cut: a token
is the longest match of any rule where it stands, unless it is a run of characters at which no rule
matches. Such characters are quotes that are never closed, control characters and characters beyond ASCII
(`stray_of_scan`). The lexer makes exactly this cut (`lexes_iff_maximalMunch`), in every language at the
same places (`lexFrom_shapes`).
-/

namespace KeyGloss

namespace Lexeme

variable {c : Char} {r : Text} {kind : TokenKind} {n : Nat}

/-! ## The rules at one place -/

/-- A text is the longest match of any rule at the start of a source, and all rules that match as much
are of the same kind. -/
structure LongestMatch (kind : TokenKind) (value source : Text) : Prop where
  filled : value ≠ []
  leads : value <+: source
  matched : ∃ rule ∈ rules, rule.1 = kind ∧ rule.2.Matches value
  longest : ∀ rule ∈ rules, ∀ s, s <+: source → rule.2.Matches s →
    s.length ≤ value.length ∧ (s.length = value.length → rule.1 = kind)

/-- No rule matches at the start of a source. -/
def Unmatched (source : Text) : Prop := ∀ rule ∈ rules, ∀ s, s <+: source → ¬ rule.2.Matches s

theorem LongestMatch.not_unmatched {value source : Text} (match_ : LongestMatch kind value source) :
    ¬ Unmatched source := by
  obtain ⟨rule, listed, -, matched⟩ := match_.matched
  exact fun unmatched => unmatched rule listed value match_.leads matched

theorem LongestMatch.unique {other : TokenKind} {first second source : Text}
    (one : LongestMatch kind first source) (two : LongestMatch other second source) :
    kind = other ∧ first = second := by
  obtain ⟨rule, listed, sort, matched⟩ := one.matched
  obtain ⟨rule', listed', sort', matched'⟩ := two.matched
  obtain ⟨shorter, same⟩ := two.longest rule listed first one.leads matched
  obtain ⟨longer, -⟩ := one.longest rule' listed' second two.leads matched'
  have length : first.length = second.length := by omega
  refine ⟨sort.symm.trans (same length), ?_⟩
  exact (List.prefix_of_prefix_length_le one.leads two.leads shorter).eq_of_length length

/-- What the lexer finds is the longest match. -/
theorem longestMatch_of_scan (found : scan c r = some (kind, n)) :
    LongestMatch kind (c :: r.take n) (c :: r) := by
  obtain ⟨offers, longest⟩ := scan_longest found
  obtain ⟨within, matched⟩ := offers.matches
  refine ⟨List.cons_ne_nil _ _, List.cons_prefix_cons.mpr ⟨rfl, List.take_prefix _ _⟩, matched, ?_⟩
  intro rule listed s prefixed matches_
  obtain ⟨rest, text⟩ := prefixed
  obtain ⟨k, other, shorter⟩ := offers_of_matches listed matches_ text
  obtain ⟨least, same⟩ := longest rule.1 k other
  rw [List.length_cons, List.length_take, Nat.min_eq_left within]
  exact ⟨by omega, fun equal => same (by omega)⟩

/-- The lexer finds nothing exactly where no rule matches. -/
theorem scan_eq_none_iff : scan c r = none ↔ Unmatched (c :: r) := by
  constructor
  · intro noRule rule listed s prefixed matched
    obtain ⟨rest, text⟩ := prefixed
    obtain ⟨n, offers, -⟩ := offers_of_matches listed matched text
    exact not_offers_of_scan noRule offers
  · intro unmatched
    cases found : scan c r with
    | none => rfl
    | some lexeme => exact absurd unmatched (longestMatch_of_scan found).not_unmatched

/-- The lexer finds the longest match, if there is one. -/
theorem scan_of_longestMatch {v : Text} (match_ : LongestMatch kind (c :: v) (c :: r)) :
    ∃ n, scan c r = some (kind, n) ∧ r.take n = v := by
  cases found : scan c r with
  | none => exact absurd (scan_eq_none_iff.mp found) match_.not_unmatched
  | some lexeme =>
    obtain ⟨same, value⟩ := (longestMatch_of_scan found).unique match_
    exact ⟨lexeme.2, by rw [← same], List.tail_eq_of_cons_eq value⟩

/-! ## Strays -/

/-- Whether a backslash at the end of a text escapes what comes next; `escaped` tells that one before the
text escapes its first character. -/
def escapesFrom (escaped : Bool) (t : Text) : Bool :=
  t.foldl (fun escaped c => !escaped && c == '\\') escaped

/-- A quote is not closed by what follows it: each further quote of its sort is escaped or stands behind
a line feed that is not. -/
def Unclosed (quote : Char) (rest : Text) : Prop :=
  ∀ front back, rest = front ++ quote :: back → escapesFrom false front = false →
    ∃ before after, front = before ++ '\n' :: after ∧ escapesFrom false before = false

/-- A control character that is no white space. -/
def IsControl (c : Char) : Prop := (c.toNat < 32 ∨ c.toNat = 127) ∧ c ∉ ['\t', '\n', '\x0c', '\r']

/-- A character that starts no lexeme. -/
def Stray (c : Char) (rest : Text) : Prop :=
  (c = '"' ∨ c = '\'') ∧ Unclosed c rest ∨ IsControl c ∨ 128 ≤ c.toNat

theorem line_feed_of_search {quote : Char} {escaped : Bool} {front back : Text}
    (unclosed : search quote false escaped (front ++ quote :: back) = none)
    (free : escapesFrom escaped front = false) :
    ∃ before after, front = before ++ '\n' :: after ∧ escapesFrom escaped before = false := by
  induction front generalizing escaped with
  | nil =>
    have plain : escaped = false := free
    subst plain
    simp [search] at unclosed
  | cons c front ih =>
    rw [List.cons_append] at unclosed
    cases escaped with
    | true =>
      rw [search, Option.map_eq_none_iff] at unclosed
      obtain ⟨before, after, rfl, unescaped⟩ := ih unclosed free
      exact ⟨c :: before, after, rfl, unescaped⟩
    | false =>
      rw [search] at unclosed
      split at unclosed
      · cases unclosed
      · split at unclosed
        · next feed =>
          obtain rfl : c = '\n' := by simpa using feed
          exact ⟨[], front, rfl, rfl⟩
        · rw [Option.map_eq_none_iff] at unclosed
          obtain ⟨before, after, rfl, unescaped⟩ := ih unclosed (by simpa [escapesFrom] using free)
          exact ⟨c :: before, after, rfl, by simpa [escapesFrom] using unescaped⟩

theorem unclosed_of_stringTail? {quote : Char} (plain : quote ≠ '\\')
    (unclosed : stringTail? quote false r = none) : Unclosed quote r := by
  intro front back split free
  rw [stringTail?_eq_search false r plain, split] at unclosed
  exact line_feed_of_search unclosed free

/-- Whether a character alone tells that a lexeme starts with it, or might. -/
def startsLexeme (c : Char) : Bool :=
  group c != .symbol || operators.contains [c] || punctuation.contains c

/-- All of ASCII but control characters start lexemes. -/
theorem startsLexeme_of_ascii (ascii : c.toNat < 128) :
    startsLexeme c = true ∨ c.toNat < 32 ∨ c.toNat = 127 := by
  have all : (List.range 128).all
      (fun n => startsLexeme (Char.ofNat n) || n < 32 || n == 127) = true := by decide +kernel
  have here := List.all_eq_true.mp all c.toNat (List.mem_range.mpr ascii)
  rw [Char.ofNat_toNat] at here
  simpa [or_assoc] using here

theorem not_startsLexeme_of_symbol? (sort : group c = .symbol) (noSymbol : symbol? c r = none) :
    startsLexeme c = false := by
  have noOperator : operators.contains [c] = false := by
    rw [Bool.eq_false_iff]
    intro listed
    obtain ⟨n, found, -⟩ := operatorTail?_ge c r (k := 0) (by decide) rfl (by simpa using listed)
    rw [symbol?, found] at noSymbol
    cases noSymbol
  have noMark : punctuation.contains c = false := by
    rw [Bool.eq_false_iff]
    intro mark
    rw [symbol?] at noSymbol
    split at noSymbol
    · cases noSymbol
    · rw [if_pos mark] at noSymbol
      cases noSymbol
  rw [startsLexeme, sort, noOperator, noMark]
  rfl

/-- A character at which the lexer finds nothing, unless it opens a template. -/
theorem stray_of_scan (noRule : scan c r = none) (closed : c ≠ '\x60') : Stray c r := by
  have spec := group_spec c
  rw [scan_eq] at noRule
  cases sort : group c with
  | space =>
    rw [sort] at noRule
    cases noRule
  | word =>
    rw [sort] at noRule
    cases noRule
  | digit =>
    rw [sort] at noRule
    cases noRule
  | slash =>
    rw [sort] at noRule
    exact absurd noRule (slash_ne_none r)
  | quote =>
    rw [sort] at noRule spec
    have tail := Option.map_eq_none_iff.mp noRule
    rcases spec with rfl | rfl | rfl
    · exact .inl ⟨.inl rfl, unclosed_of_stringTail? (by decide) tail⟩
    · exact .inl ⟨.inr rfl, unclosed_of_stringTail? (by decide) tail⟩
    · exact absurd rfl closed
  | symbol =>
    rw [sort] at noRule
    refine .inr ((Nat.lt_or_ge c.toNat 128).imp_left fun ascii => ?_)
    have control := (startsLexeme_of_ascii ascii).resolve_left
      (by simp [not_startsLexeme_of_symbol? sort noRule])
    refine ⟨control, fun space => ?_⟩
    have all : ['\t', '\n', '\x0c', '\r'].all (fun c => group c != .symbol) = true := by decide
    simpa [sort] using List.all_eq_true.mp all c space

end Lexeme

namespace Token

open Lexeme

variable {language : Language} {source : Text} {tokens after : List Token} {token : Token}

/-! ## The cut by longest matches -/

/-- A token is the longest match at its place before further tokens; a word that the language reserves is
a keyword. -/
def IsLexeme (language : Language) (token : Token) (after : List Token) : Prop :=
  ∃ kind, LongestMatch kind token.value (token.value ++ concat after) ∧
    token.kind = if kind = .name ∧ language.isKeyword token.value = true then .keyword else kind

/-- A token is a run of strays, behind which a match starts or the source ends. -/
structure IsStrayRun (token : Token) (after : List Token) : Prop where
  filled : token.value ≠ []
  strays : ∀ c back, c :: back <:+ token.value →
    Unmatched (c :: (back ++ concat after)) ∧ Stray c (back ++ concat after)
  ends : after = [] ∨ ¬ Unmatched (concat after)

/-- The tokens of a source are longest matches and runs of strays, each as it stands before the tokens
after it, and no two runs touch. -/
structure MaximalMunch (language : Language) (source : Text) (tokens : List Token) : Prop where
  lossless : concat tokens = source
  lexemes : ∀ token after, token :: after <:+ tokens → token.kind ≠ .error →
    IsLexeme language token after
  strays : ∀ token after, token :: after <:+ tokens → token.kind = .error → IsStrayRun token after
  apart : tokens.IsChain fun first second => first.kind ≠ .error ∨ second.kind ≠ .error

theorem isLexeme_iff :
    IsLexeme language token after ↔
      ∃ kind, LongestMatch kind token.value (token.value ++ concat after) ∧
        token = ofLexeme language kind token.value := by
  refine exists_congr fun kind => and_congr_right fun _ => ?_
  unfold ofLexeme
  split <;> exact ⟨fun sort => by rw [← sort], fun equal => congrArg Token.kind equal⟩

theorem IsLexeme.not_unmatched (lexeme : IsLexeme language token after) :
    ¬ Unmatched (concat (token :: after)) := by
  obtain ⟨kind, longest, -⟩ := lexeme
  exact longest.not_unmatched

theorem IsStrayRun.unmatched (run : IsStrayRun token after) : Unmatched (concat (token :: after)) := by
  obtain ⟨c, back, value⟩ := List.exists_cons_of_ne_nil run.filled
  have strays := run.strays c back
  rw [value] at strays
  rw [concat_cons, value]
  exact (strays (List.suffix_refl _)).1

/-- One more stray before a run, or before tokens that start with none. -/
theorem isStrayRun_cons {c : Char} {value : Text} (noRule : scan c (value ++ concat after) = none)
    (closed : c ≠ '\x60')
    (strays : ∀ d back, d :: back <:+ value →
      Unmatched (d :: (back ++ concat after)) ∧ Stray d (back ++ concat after))
    (ends : after = [] ∨ ¬ Unmatched (concat after)) : IsStrayRun ⟨.error, c :: value⟩ after where
  filled := List.cons_ne_nil c value
  strays d back inside := by
    rcases List.suffix_cons_iff.mp inside with equal | behind
    · cases equal
      exact ⟨scan_eq_none_iff.mp noRule, stray_of_scan noRule closed⟩
    · exact strays d back behind
  ends := ends

namespace MaximalMunch

theorem head (munch : MaximalMunch language source (token :: after)) :
    (token.kind ≠ .error → IsLexeme language token after) ∧
      (token.kind = .error → IsStrayRun token after) :=
  ⟨munch.lexemes token after (List.suffix_refl _), munch.strays token after (List.suffix_refl _)⟩

theorem tail (munch : MaximalMunch language source (token :: after)) :
    MaximalMunch language (concat after) after where
  lossless := rfl
  lexemes next rest inside := munch.lexemes next rest (inside.trans (List.suffix_cons _ _))
  strays next rest inside := munch.strays next rest (inside.trans (List.suffix_cons _ _))
  apart := munch.apart.tail

/-- A run of strays ends before a lexeme. -/
theorem head_ne_error (munch : MaximalMunch language source after)
    (ends : after = [] ∨ ¬ Unmatched (concat after)) : ∀ next ∈ after.head?, next.kind ≠ .error := by
  intro next first error
  cases after with
  | nil => cases first
  | cons head rest =>
    obtain rfl : head = next := Option.some.inj first
    exact (ends.resolve_left (List.cons_ne_nil _ _)) (munch.head.2 error).unmatched

theorem cons (munch : MaximalMunch language (concat after) after)
    (lexeme : token.kind ≠ .error → IsLexeme language token after)
    (strays : token.kind = .error → IsStrayRun token after) :
    MaximalMunch language (concat (token :: after)) (token :: after) where
  lossless := rfl
  lexemes next rest inside known := by
    rcases List.suffix_cons_iff.mp inside with equal | behind
    · cases equal
      exact lexeme known
    · exact munch.lexemes next rest behind known
  strays next rest inside error := by
    rcases List.suffix_cons_iff.mp inside with equal | behind
    · cases equal
      exact strays error
    · exact munch.strays next rest behind error
  apart := by
    cases after with
    | nil => exact .singleton _
    | cons next rest =>
      refine .cons_cons ?_ munch.apart
      by_cases error : token.kind = .error
      · exact .inr (munch.head_ne_error (strays error).ends next rfl)
      · exact .inl error

theorem cons_lexeme {c : Char} {r : Text} {kind : TokenKind} {n : Nat}
    (munch : MaximalMunch language (r.drop n) tokens) (rule : scan c r = some (kind, n)) :
    MaximalMunch language (c :: r) (ofLexeme language kind (c :: r.take n) :: tokens) := by
  have rest : concat tokens = r.drop n := munch.lossless
  have source : concat (ofLexeme language kind (c :: r.take n) :: tokens) = c :: r := by
    rw [concat_cons, ofLexeme_value, rest, List.cons_append, List.take_append_drop]
  rw [← rest] at munch
  rw [← source]
  refine munch.cons (fun _ => isLexeme_iff.mpr ⟨kind, ?_, by rw [ofLexeme_value]⟩) fun error => ?_
  · rw [← concat_cons, source, ofLexeme_value]
    exact longestMatch_of_scan rule
  · exact absurd error (ofLexeme_kind_ne_error language _ (scan_kind_ne_error rule))

theorem cons_stray {c : Char} {r : Text} (munch : MaximalMunch language r tokens)
    (noRule : scan c r = none) (closed : c ≠ '\x60') :
    MaximalMunch language (c :: r) (consStray c tokens) := by
  have source : concat (consStray c tokens) = c :: r := by rw [concat_consStray, munch.lossless]
  rw [← munch.lossless] at noRule
  rw [← source]
  rcases consStray_cases c tokens with ⟨value, rest, rfl, joined⟩ | ⟨other, joined⟩
  · rw [joined]
    have run := munch.head.2 rfl
    exact munch.tail.cons (fun known => absurd rfl known) fun _ =>
      isStrayRun_cons noRule closed run.strays run.ends
  · rw [joined]
    rw [← munch.lossless] at munch
    refine munch.cons (fun known => absurd rfl known) fun _ =>
      isStrayRun_cons noRule closed (fun d back inside => ?_) ?_
    · cases List.suffix_nil.mp inside
    · cases tokens with
      | nil => exact .inl rfl
      | cons next rest => exact .inr (munch.head.1 (other next rfl)).not_unmatched

end MaximalMunch

theorem Lexes.maximalMunch (lexes : Lexes language source tokens) :
    MaximalMunch language source tokens := by
  induction lexes with
  | nil =>
    refine ⟨rfl, fun _ _ inside => ?_, fun _ _ inside => ?_, .nil⟩
    · cases List.suffix_nil.mp inside
    · cases List.suffix_nil.mp inside
  | lexeme rule _ ih => exact ih.cons_lexeme rule
  | stray noRule closed _ ih => exact ih.cons_stray noRule closed

/-- A run of strays is read character by character. -/
theorem Lexes.cons_strays {value : Text} (rest : Lexes language (concat after) after)
    (other : ∀ next ∈ after.head?, next.kind ≠ .error) (filled : value ≠ [])
    (strays : ∀ c back, c :: back <:+ value → scan c (back ++ concat after) = none ∧ c ≠ '\x60') :
    Lexes language (value ++ concat after) (⟨.error, value⟩ :: after) := by
  induction value with
  | nil => exact absurd rfl filled
  | cons c value ih =>
    obtain ⟨noRule, closed⟩ := strays c value (List.suffix_refl _)
    cases value with
    | nil =>
      rw [← consStray_of_head other]
      exact .stray noRule closed rest
    | cons d value =>
      have inner := ih (List.cons_ne_nil d value) fun e back inside =>
        strays e back (inside.trans (List.suffix_cons _ _))
      exact .stray noRule closed inner

theorem Lexes.cons_longest (rest : Lexes language (concat after) after)
    (lexeme : IsLexeme language token after) :
    Lexes language (concat (token :: after)) (token :: after) := by
  obtain ⟨kind, longest, sort⟩ := isLexeme_iff.mp lexeme
  obtain ⟨c, value, split⟩ := List.exists_cons_of_ne_nil longest.filled
  rw [split] at longest sort
  rw [List.cons_append] at longest
  obtain ⟨n, rule, taken⟩ := scan_of_longestMatch longest
  have dropped : (value ++ concat after).drop n = concat after := by
    have whole := List.take_append_drop n (value ++ concat after)
    rw [taken] at whole
    exact List.append_cancel_left whole
  have read := Lexes.lexeme rule (by rw [dropped]; exact rest)
  rw [taken, ← sort] at read
  rwa [concat_cons, split]

theorem MaximalMunch.lexes (munch : MaximalMunch language source tokens) :
    Lexes language source tokens := by
  induction tokens generalizing source with
  | nil =>
    obtain rfl : [] = source := munch.lossless
    exact .nil
  | cons token after ih =>
    have rest := ih munch.tail
    rw [← munch.lossless]
    by_cases error : token.kind = .error
    · have run := munch.head.2 error
      obtain ⟨kind, value⟩ := token
      cases error
      refine rest.cons_strays (munch.tail.head_ne_error run.ends) run.filled fun c back inside => ?_
      obtain ⟨unmatched, stray⟩ := run.strays c back inside
      refine ⟨scan_eq_none_iff.mpr unmatched, ?_⟩
      rintro rfl
      revert stray
      simp [Stray, IsControl]
    · exact rest.cons_longest (munch.head.1 error)

/-- The lexer cuts by longest matches. -/
theorem lexes_iff_maximalMunch :
    Lexes language source tokens ↔ MaximalMunch language source tokens :=
  ⟨Lexes.maximalMunch, MaximalMunch.lexes⟩

/-! ## Other languages -/

/-- What no language decides about a token: its text, and whether it is an error. -/
def shape (token : Token) : Text × Bool := (token.value, token.kind == .error)

theorem shape_ofLexeme (language : Language) {kind : TokenKind} (value : Text) (known : kind ≠ .error) :
    shape (ofLexeme language kind value) = (value, false) := by
  rw [shape, ofLexeme_value, beq_eq_false_iff_ne.mpr (ofLexeme_kind_ne_error language value known)]

def strayShape (c : Char) : List (Text × Bool) → List (Text × Bool)
  | (value, true) :: rest => (c :: value, true) :: rest
  | shapes => ([c], true) :: shapes

theorem shapes_consStray (c : Char) (tokens : List Token) :
    (consStray c tokens).map shape = strayShape c (tokens.map shape) := by
  rcases consStray_cases c tokens with ⟨value, rest, rfl, joined⟩ | ⟨other, joined⟩
  · rw [joined]
    rfl
  · rw [joined]
    cases tokens with
    | nil => rfl
    | cons next rest =>
      have known : (next.kind == .error) = false := beq_eq_false_iff_ne.mpr (other next rfl)
      simp [strayShape, shape, known]

private theorem map_map {ε α β γ : Type} (f : α → β) (g : β → γ) (result : Except ε α) :
    (result.map f).map g = result.map (g ∘ f) := by
  cases result <;> rfl

/-- The languages cut a source at the same places, or fail alike. -/
theorem lexFrom_shapes (first second : Language) (line : Nat) (source : Text) :
    (lexFrom first line source).map (List.map shape) =
      (lexFrom second line source).map (List.map shape) := by
  fun_induction lexFrom first line source with
  | case1 => rw [lexFrom]
  | case2 line c r kind n rule value ih =>
    have known := scan_kind_ne_error rule
    have head (language : Language) :
        List.map shape ∘ (ofLexeme language kind value :: ·) = ((value, false) :: ·) ∘ List.map shape := by
      funext tokens
      simp [shape_ofLexeme language value known]
    rw [lexFrom, rule]
    simp only [map_map]
    rw [head first, head second, ← map_map, ← map_map, ih]
  | case3 line r noRule =>
    rw [lexFrom, noRule]
    rfl
  | case4 line c r noRule closed ih =>
    have head : List.map shape ∘ consStray c = strayShape c ∘ List.map shape := by
      funext tokens
      exact shapes_consStray c tokens
    rw [lexFrom, noRule]
    simp only [closed, if_false, map_map]
    rw [head, ← map_map, ← map_map, ih]

theorem lex_values (first second : Language) (source : Text) :
    (lex first source).map (List.map Token.value) = (lex second source).map (List.map Token.value) := by
  have value : List.map Token.value = List.map Prod.fst ∘ List.map shape := by
    funext tokens
    simp [shape]
  rw [value, ← map_map, ← map_map, lex, lex, lexFrom_shapes first second]

/-- The lexer cuts a source by longest matches: it succeeds with exactly the tokens whose texts make up the
source, where each token but errors is the longest match of any rule at its place and of the kind of that
rule, but for reserved words, and each error is a whole run, between matches or the ends of the source, of
characters at which no rule matches. These are quotes without an end, control characters other than white
space, and characters beyond ASCII. No language cuts at other places, or fails where another does not. -/
theorem lex_maximal_munch (language : Language) (source : Text) :
    (∀ tokens, lex language source = .ok tokens ↔ MaximalMunch language source tokens) ∧
      ∀ other, (lex other source).map (List.map Token.value) =
        (lex language source).map (List.map Token.value) := by
  constructor
  · intro tokens
    rw [lex_eq_ok_iff, lexes_iff_maximalMunch]
  · intro other
    exact lex_values other language source

/-- A reserved word of one language only, an exponent and an ellipsis that lack something, a quote that is
not closed on its line, and two characters beside each other that start nothing. -/
theorem lex_maximal_munch_strays :
    let source : Text := "as ?.5e+..it's/***/0x_n\x01é\n\"'\""
    let tokens : List Token :=
      [⟨.keyword, "as"⟩, ⟨.text, " "⟩, ⟨.operator, "?."⟩, ⟨.number, "5"⟩, ⟨.name, "e"⟩, ⟨.operator, "+"⟩,
        ⟨.punctuation, "."⟩, ⟨.punctuation, "."⟩, ⟨.name, "it"⟩, ⟨.error, "'"⟩, ⟨.name, "s"⟩,
        ⟨.blockComment, "/***/"⟩, ⟨.number, "0x_n"⟩, ⟨.error, "\x01é"⟩, ⟨.text, "\n"⟩,
        ⟨.stringDouble, "\"'\""⟩]
    lex .typeScript source = .ok tokens ∧ MaximalMunch .typeScript source tokens ∧
      (lex .javaScript source).map (List.map Token.value) = .ok (tokens.map Token.value) := by
  intro source tokens
  obtain ⟨cut, alike⟩ := lex_maximal_munch .typeScript source
  have success : lex .typeScript source = .ok tokens := by decide +kernel
  refine ⟨success, (cut tokens).mp success, ?_⟩
  rw [alike .javaScript, success]
  rfl

end Token

end KeyGloss
