import Mathlib.Data.List.Chain
import KeyGloss.Token.Lexer

/-!
# The cut of a source into tokens, as a relation

`Lexes language source tokens` says that the lexical rules cut `source` into `tokens`. It speaks of
the rules and of joined strays only, not of line numbers or errors: `lexFrom_eq_ok_iff` ties it to the
lexer. The tokens are unique, cover the source without loss, are not empty, and hold no two
neighbouring errors.
-/

namespace KeyGloss

namespace Token

/-- How the lexical rules cut a source: a lexeme of the length its rule gives, or a stray character
that no rule accepts and that does not open a template. -/
inductive Lexes (language : Language) : Text → List Token → Prop
  | nil : Lexes language [] []
  | lexeme {c : Char} {r : Text} {kind : TokenKind} {n : Nat} {tokens : List Token}
      (rule : Lexeme.scan c r = some (kind, n)) (rest : Lexes language (r.drop n) tokens) :
      Lexes language (c :: r) (ofLexeme language kind (c :: r.take n) :: tokens)
  | stray {c : Char} {r : Text} {tokens : List Token}
      (noRule : Lexeme.scan c r = none) (closed : c ≠ '\x60') (rest : Lexes language r tokens) :
      Lexes language (c :: r) (consStray c tokens)

private theorem map_eq_ok {ε α β : Type} {f : α → β} {step : Except ε α} {value : β}
    (success : step.map f = .ok value) : ∃ x, step = .ok x ∧ f x = value := by
  cases step with
  | error e => cases success
  | ok x => exact ⟨x, rfl, Except.ok.inj success⟩

theorem lexes_of_lexFrom (language : Language) (line : Nat) (source : Text) :
    ∀ tokens, lexFrom language line source = .ok tokens → Lexes language source tokens := by
  fun_induction lexFrom language line source with
  | case1 =>
    intro tokens success
    obtain rfl := Except.ok.inj success
    exact .nil
  | case2 line c r kind n rule value ih =>
    intro tokens success
    obtain ⟨rest, lexed, rfl⟩ := map_eq_ok success
    exact .lexeme rule (ih rest lexed)
  | case3 =>
    intro tokens success
    cases success
  | case4 line c r noRule closed ih =>
    intro tokens success
    obtain ⟨rest, lexed, rfl⟩ := map_eq_ok success
    exact .stray noRule closed (ih rest lexed)

theorem lexFrom_of_lexes {language : Language} {source : Text} {tokens : List Token}
    (lexes : Lexes language source tokens) :
    ∀ line, lexFrom language line source = .ok tokens := by
  induction lexes with
  | nil => intro line; rw [lexFrom]
  | lexeme rule _ ih => intro line; rw [lexFrom, rule]; simp only [ih]; rfl
  | stray noRule closed _ ih => intro line; rw [lexFrom, noRule]; simp only [closed, if_false, ih]; rfl

/-- The lexer succeeds exactly on the sources that the rules cut, from whichever line it counts. -/
theorem lexFrom_eq_ok_iff {language : Language} {line : Nat} {source : Text}
    {tokens : List Token} :
    lexFrom language line source = .ok tokens ↔ Lexes language source tokens :=
  ⟨lexes_of_lexFrom language line source tokens, fun lexes => lexFrom_of_lexes lexes line⟩

theorem lex_eq_ok_iff {language : Language} {source : Text} {tokens : List Token} :
    lex language source = .ok tokens ↔ Lexes language source tokens :=
  lexFrom_eq_ok_iff

theorem Lexes.unique {language : Language} {source : Text} {first second : List Token}
    (one : Lexes language source first) (other : Lexes language source second) : first = second :=
  Except.ok.inj ((lex_eq_ok_iff.mpr one).symm.trans (lex_eq_ok_iff.mpr other))

@[simp] theorem concat_nil : concat [] = [] := rfl

@[simp] theorem concat_cons (token : Token) (tokens : List Token) :
    concat (token :: tokens) = token.value ++ concat tokens := rfl

@[simp] theorem concat_append (first second : List Token) :
    concat (first ++ second) = concat first ++ concat second := by
  simp [concat]

@[simp] theorem ofLexeme_value (language : Language) (kind : TokenKind) (value : Text) :
    (ofLexeme language kind value).value = value := by
  unfold ofLexeme
  split <;> rfl

/-- A stray either joins the error token that comes next or becomes one of its own. -/
theorem consStray_cases (c : Char) (tokens : List Token) :
    (∃ value rest, tokens = ⟨.error, value⟩ :: rest ∧
        consStray c tokens = ⟨.error, c :: value⟩ :: rest) ∨
      ((∀ token ∈ tokens.head?, token.kind ≠ .error) ∧
        consStray c tokens = ⟨.error, [c]⟩ :: tokens) := by
  unfold consStray
  split
  · exact .inl ⟨_, _, rfl, rfl⟩
  · next other =>
    refine .inr ⟨?_, rfl⟩
    rintro ⟨kind, value⟩ first rfl
    cases tokens with
    | nil => cases first
    | cons head rest => exact other value rest (by rw [Option.mem_some.mp first])

theorem concat_consStray (c : Char) (tokens : List Token) :
    concat (consStray c tokens) = c :: concat tokens := by
  rcases consStray_cases c tokens with ⟨value, rest, rfl, joined⟩ | ⟨_, joined⟩ <;> simp [joined]

/-- Nothing of the source is lost or doubled. -/
theorem Lexes.concat_eq {language : Language} {source : Text} {tokens : List Token}
    (lexes : Lexes language source tokens) : concat tokens = source := by
  induction lexes with
  | nil => rfl
  | lexeme _ _ ih => simp [ih]
  | stray _ _ _ ih => rw [concat_consStray, ih]

theorem Lexes.value_ne_nil {language : Language} {source : Text} {tokens : List Token}
    (lexes : Lexes language source tokens) : ∀ token ∈ tokens, token.value ≠ [] := by
  induction lexes with
  | nil => simp
  | lexeme _ _ ih => simpa using ih
  | @stray c _ tokens _ _ _ ih =>
    rcases consStray_cases c tokens with ⟨value, rest, rfl, joined⟩ | ⟨_, joined⟩
    · rw [joined]
      simp only [List.mem_cons, forall_eq_or_imp] at ih ⊢
      exact ⟨by simp, ih.2⟩
    · rw [joined]
      simpa using ih

/-- No rule makes an error token. -/
theorem scan_kind_ne_error {c : Char} {r : Text} {kind : TokenKind} {n : Nat}
    (rule : Lexeme.scan c r = some (kind, n)) : kind ≠ .error := by
  rintro rfl
  simp only [Lexeme.scan, Lexeme.slash, Lexeme.symbol?] at rule
  repeat' split at rule
  all_goals simp at rule

theorem ofLexeme_kind_ne_error (language : Language) {kind : TokenKind} (value : Text)
    (known : kind ≠ .error) : (ofLexeme language kind value).kind ≠ .error := by
  unfold ofLexeme
  split
  · simp
  · exact known

/-- Strays that touch are one token. -/
theorem Lexes.isChain {language : Language} {source : Text} {tokens : List Token}
    (lexes : Lexes language source tokens) :
    tokens.IsChain fun first second => first.kind ≠ .error ∨ second.kind ≠ .error := by
  induction lexes with
  | nil => exact .nil
  | @lexeme c r kind n tokens rule _ ih =>
    have known := ofLexeme_kind_ne_error language (c :: r.take n) (scan_kind_ne_error rule)
    cases tokens with
    | nil => exact .singleton _
    | cons next rest => exact .cons_cons (.inl known) ih
  | @stray c _ tokens _ _ _ ih =>
    rcases consStray_cases c tokens with ⟨value, rest, rfl, joined⟩ | ⟨other, joined⟩
    · rw [joined]
      cases rest with
      | nil => exact .singleton _
      | cons next rest =>
        obtain ⟨apart, rest⟩ := List.isChain_cons_cons.mp ih
        exact .cons_cons apart rest
    · rw [joined]
      cases tokens with
      | nil => exact .singleton _
      | cons next rest => exact .cons_cons (.inr (other next rfl)) ih

end Token

end KeyGloss
