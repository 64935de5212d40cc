import KeyGloss.Proofs.ReferenceLiterals
import KeyGloss.Proofs.Token.MaximalMunch

/-!
# The content of literals

A literal is a quote, a body in which a backslash escapes every further quote of its sort, and the quote
again (`exists_body_of_search`). So trimming never takes a quote from the front of the body, and it takes
at most one from its end: the last escaped quote, whose backslash stays behind (`trimBy_of_escaped`).
-/

namespace KeyGloss

namespace Lexeme

variable {quote c : Char} {escaped : Bool} {body : Text}

/-- A backslash escapes every `quote` of a text; `escaped` tells that one before the text escapes its first
character. -/
def QuotesEscaped (quote : Char) (escaped : Bool) (body : Text) : Prop :=
  ∀ front back, body = front ++ quote :: back → escapesFrom escaped front = true

theorem quotesEscaped_nil : QuotesEscaped quote escaped [] := by
  intro front back split
  simp at split

theorem QuotesEscaped.cons (first : c = quote → escaped = true)
    (rest : QuotesEscaped quote (!escaped && c == '\\') body) :
    QuotesEscaped quote escaped (c :: body) := by
  intro front back split
  cases front with
  | nil => exact first (List.cons.inj split).1
  | cons d front =>
    obtain ⟨rfl, later⟩ := List.cons.inj split
    exact rest front back later

theorem QuotesEscaped.head?_ne (quotes : QuotesEscaped quote false body) : body.head? ≠ some quote := by
  intro first
  obtain ⟨back, rfl⟩ := List.head?_eq_some_iff.mp first
  exact Bool.false_ne_true (quotes [] back rfl)

/-- What escapes the next character ends with a backslash. -/
theorem exists_backslash_of_escapesFrom {front : Text} (escapes : escapesFrom false front = true) :
    ∃ before, front = before ++ ['\\'] := by
  rcases List.eq_nil_or_concat front with rfl | ⟨before, last, rfl⟩
  · cases escapes
  · rw [List.concat_eq_append, escapesFrom, List.foldl_append] at escapes
    obtain ⟨-, backslash⟩ := Bool.and_eq_true_iff.mp escapes
    exact ⟨before, by rw [List.concat_eq_append, beq_iff_eq.mp backslash]⟩

/-- A body that ends with a quote ends with an escaped one. -/
theorem QuotesEscaped.backslash_of_last (quotes : QuotesEscaped quote false body)
    (last : body.getLast? = some quote) : ∃ before, body = before ++ ['\\', quote] := by
  obtain ⟨front, rfl⟩ := List.getLast?_eq_some_iff.mp last
  obtain ⟨before, rfl⟩ := exists_backslash_of_escapesFrom (quotes front [] rfl)
  exact ⟨before, by simp⟩

/-- The search for the end of a string stops at the first quote that no backslash escapes. -/
theorem exists_body_of_search {multiline : Bool} {t : Text} {n : Nat}
    (found : search quote multiline escaped t = some n) :
    ∃ body, t.take n = body ++ [quote] ∧ QuotesEscaped quote escaped body := by
  induction t generalizing escaped n with
  | nil => cases found
  | cons c t ih =>
    cases escaped with
    | true =>
      rw [search] at found
      obtain ⟨k, later, rfl⟩ := Option.map_eq_some_iff.mp found
      obtain ⟨body, taken, quotes⟩ := ih later
      exact ⟨c :: body, by rw [List.take_succ_cons, taken, List.cons_append], .cons (fun _ => rfl) quotes⟩
    | false =>
      rw [search] at found
      split at found
      · next ends =>
        cases found
        exact ⟨[], by simp [ends], quotesEscaped_nil⟩
      · next different =>
        split at found
        · cases found
        · obtain ⟨k, later, rfl⟩ := Option.map_eq_some_iff.mp found
          obtain ⟨body, taken, quotes⟩ := ih later
          refine ⟨c :: body, by rw [List.take_succ_cons, taken, List.cons_append], ?_⟩
          exact .cons (fun same => absurd same different) quotes

end Lexeme

namespace Token

open Lexeme (QuoteMark quoteKind QuotesEscaped)

/-- The value of a token without its first and its last character. -/
def inside (token : Token) : Text := token.value.tail.dropLast

theorem inside_quoted (kind : TokenKind) (quote : Char) (body : Text) :
    inside ⟨kind, quote :: (body ++ [quote])⟩ = body := by
  simp [inside]

variable {quote : Char} {body : Text}

theorem trimBy_of_free (quotes : QuotesEscaped quote false body)
    (free : ¬ ['\\', quote] <:+ body) : trimBy (· == quote) (quote :: (body ++ [quote])) = body := by
  rw [trimBy_enclosed quotes.head?_ne, List.rdropWhile_eq_self_iff]
  intro notEmpty last
  obtain ⟨before, rfl⟩ := quotes.backslash_of_last
    (by rw [List.getLast?_eq_some_getLast notEmpty, beq_iff_eq.mp last])
  exact free (List.suffix_append before _)

/-- Trimming takes an escaped quote at the end of a literal, and leaves the backslash. -/
theorem trimBy_of_escaped (mark : QuoteMark quote) {before : Text}
    (quotes : QuotesEscaped quote false (before ++ ['\\', quote])) :
    trimBy (· == quote) (quote :: (before ++ ['\\', quote] ++ [quote])) = before ++ ['\\'] := by
  have other : ¬ (('\\' : Char) == quote) = true := by
    rcases mark with rfl | rfl | rfl <;> decide
  have split : before ++ ['\\', quote] = before ++ ['\\'] ++ [quote] := by simp
  rw [trimBy_enclosed quotes.head?_ne, split, List.rdropWhile_concat_pos _ _ _ (by simp)]
  exact List.rdropWhile_concat_neg _ _ _ other

/-- A string token is a body between two quotes that escapes all quotes of its own. -/
theorem Lexes.exists_body {language : Language} {source : Text} {tokens : List Token}
    (lexes : Lexes language source tokens) {token : Token} (member : token ∈ tokens)
    (string : token.kind.isString = true) :
    ∃ quote body, QuoteMark quote ∧ token = ⟨quoteKind quote, quote :: (body ++ [quote])⟩ ∧
      QuotesEscaped quote false body := by
  obtain ⟨quote, rest, n, mark, rfl, ends⟩ :=
    lexes.exists_stringTail? token (List.mem_filter.mpr ⟨member, string⟩)
  have noEscape : quote ≠ '\\' := by rcases mark with rfl | rfl | rfl <;> decide
  rw [Lexeme.stringTail?_eq_search _ _ noEscape] at ends
  obtain ⟨body, taken, quotes⟩ := Lexeme.exists_body_of_search ends
  exact ⟨quote, body, mark, by rw [taken], quotes⟩

/-- The content of a string token is what stands between its quotes, unless this ends with an escaped quote
of the same sort. Then the content lacks that quote, and ends with the backslash before it. -/
theorem content_eq_inside_iff (language : Language) (source : Text) (tokens : List Token)
    (lexed : lex language source = .ok tokens) (token : Token) (member : token ∈ tokens)
    (string : token.kind.isString = true) :
    ∃ quote, QuoteMark quote ∧ token.kind = quoteKind quote ∧
      token.value = quote :: (token.inside ++ [quote]) ∧
      (token.content = token.inside ↔ ¬ ['\\', quote] <:+ token.inside) ∧
      (['\\', quote] <:+ token.inside → token.inside = token.content ++ [quote]) := by
  obtain ⟨quote, body, mark, rfl, quotes⟩ := (lex_eq_ok_iff.mp lexed).exists_body member string
  refine ⟨quote, mark, rfl, ?_⟩
  rw [inside_quoted, content_quoteKind _ mark]
  by_cases ends : ['\\', quote] <:+ body
  · obtain ⟨before, rfl⟩ := ends
    rw [trimBy_of_escaped mark quotes]
    simp
  · simp [trimBy_of_free quotes ends, ends]

/-- A literal with an escaped quote inside, one that is empty, and a template that ends with an escaped
backtick. -/
theorem content_eq_inside_iff_three_quotes :
    let source : Text := "t('it\\'s',\"\",\x60a\\\x60\x60)"
    let apostrophe : Token := ⟨.stringSingle, "'it\\'s'"⟩
    let empty : Token := ⟨.stringDouble, "\"\""⟩
    let template : Token := ⟨.stringBacktick, "\x60a\\\x60\x60"⟩
    lex .typeScript source = .ok
        [⟨.name, "t"⟩, ⟨.punctuation, "("⟩, apostrophe, ⟨.punctuation, ","⟩, empty, ⟨.punctuation, ","⟩,
          template, ⟨.punctuation, ")"⟩] ∧
      apostrophe.content = apostrophe.inside ∧ empty.content = empty.inside ∧
      template.inside = template.content ++ ['\x60'] := by
  intro source apostrophe empty template
  have lexed : lex .typeScript source = .ok
      [⟨.name, "t"⟩, ⟨.punctuation, "("⟩, apostrophe, ⟨.punctuation, ","⟩, empty, ⟨.punctuation, ","⟩,
        template, ⟨.punctuation, ")"⟩] := by decide +kernel
  have literal := content_eq_inside_iff .typeScript source _ lexed
  refine ⟨lexed, ?_, ?_, ?_⟩
  · obtain ⟨quote, mark, kind, -, same, -⟩ := literal apostrophe (by simp) rfl
    obtain rfl : quote = '\'' := by rcases mark with rfl | rfl | rfl <;> revert kind <;> decide
    exact same.mpr (by decide +kernel)
  · obtain ⟨quote, mark, kind, -, same, -⟩ := literal empty (by simp) rfl
    obtain rfl : quote = '"' := by rcases mark with rfl | rfl | rfl <;> revert kind <;> decide
    exact same.mpr (by decide +kernel)
  · obtain ⟨quote, mark, kind, -, -, drops⟩ := literal template (by simp) rfl
    obtain rfl : quote = '\x60' := by rcases mark with rfl | rfl | rfl <;> revert kind <;> decide
    exact drops (by decide +kernel)

/-- The content of a literal that ends with an escaped quote is not what stands between its quotes. -/
theorem content_drops_escaped_quote :
    let literal : Token := ⟨.stringDouble, "\"a\\\"\""⟩
    lex .typeScript "t(\"a\\\"\")" = .ok
        [⟨.name, "t"⟩, ⟨.punctuation, "("⟩, literal, ⟨.punctuation, ")"⟩] ∧
      literal.inside = "a\\\"" ∧ literal.content = "a\\" ∧ literal.content ≠ literal.inside := by
  decide +kernel

end Token

end KeyGloss
