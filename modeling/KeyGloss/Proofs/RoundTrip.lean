import KeyGloss.Proofs.ReferenceScan
import KeyGloss.Proofs.Token.Lexes
import KeyGloss.Strategy

/-!
# Sources without loss

A source that could be read holds every character of its content in order, and a strategy that
replaces nothing leaves it as it was.
-/

namespace KeyGloss

namespace Source

/-- What reading a file gives: its tokens, not yet changed, under its path. -/
theorem lexes_of_read {path : Path} {content : Text} {s : Source}
    (success : Source.read path content = .ok s) :
    Language.detect? path content = some s.language ∧ Token.Lexes s.language content s.tokens ∧
      s.path = path ∧ s.changed = false := by
  unfold Source.read at success
  split at success
  · cases success
  · next language detected =>
    split at success
    · next tokens lexed =>
      obtain rfl := Except.ok.inj success
      exact ⟨detected, Token.lex_eq_ok_iff.mp lexed, rfl, rfl⟩
    · cases success

end Source

namespace Strategy

/-- Either strategy touches a source only to replace something in it. -/
theorem apply_source_of_no_replacement (strategy : Strategy) (s : Source) (outcome : Outcome)
    (done : (strategy.apply s).2.2 = .ok outcome) (nothing : outcome.replacements = 0) :
    (strategy.apply s).1 = s := by
  cases strategy with
  | gloss keys =>
    simp only [apply, Gloss.apply] at done ⊢
    split at done
    · next zero => rw [if_pos zero]
    · next positive =>
      obtain rfl := Except.ok.inj done
      exact absurd nothing positive
  | reference r =>
    simp only [apply, Referencing.apply, Referencing.scan_eq] at done ⊢
    by_cases noHit : r.accepted s.tokens = []
    · simp [noHit]
    · -- something was accepted, so no outcome can count zero
      have counted : (r.accepted s.tokens).length ≠ 0 := by simpa using noHit
      simp only [noHit, if_false] at done
      split at done
      · obtain rfl := Except.ok.inj done
        exact absurd nothing counted
      · split at done
        · cases done
        · obtain rfl := Except.ok.inj done
          exact absurd nothing counted

end Strategy

/-- Reading a file loses nothing: its tokens concatenate to its content, none is empty and no two
neighbours are errors; and a strategy that reports no replacement leaves text and mark of change
as they were. -/
theorem Source.read_lossless (path : Path) (content : Text) (s : Source)
    (success : Source.read path content = .ok s) :
    s.text = content ∧ (∀ token ∈ s.tokens, token.value ≠ []) ∧
      (s.tokens.IsChain fun first second => ¬(first.kind = .error ∧ second.kind = .error)) ∧
      ∀ (strategy : Strategy) (after : Source) (diagnostics : List Diagnostic) (outcome : Outcome),
        strategy.apply s = (after, diagnostics, .ok outcome) → outcome.replacements = 0 →
          after.changed = false ∧ after.text = content := by
  obtain ⟨_, lexes, _, unchanged⟩ := Source.lexes_of_read success
  have text : s.text = content := lexes.concat_eq
  refine ⟨text, lexes.value_ne_nil, lexes.isChain.imp fun _ _ apart => by tauto, ?_⟩
  intro strategy after diagnostics outcome applied nothing
  have same : (strategy.apply s).1 = s :=
    strategy.apply_source_of_no_replacement s outcome (by rw [applied]) nothing
  rw [applied] at same
  obtain rfl : after = s := same
  exact ⟨unchanged, text⟩

/-- A file with a stray quote, an exponent without digits and two characters of several bytes. -/
theorem Source.read_lossless_stray_quote :
    let s : Source :=
      { path := ("a.ts" : Text), language := .typeScript
        tokens := [⟨.name, "it"⟩, ⟨.error, "'"⟩, ⟨.name, "s"⟩, ⟨.text, " "⟩, ⟨.number, "1"⟩,
          ⟨.name, "e"⟩, ⟨.operator, "+"⟩, ⟨.error, "éé"⟩] }
    Source.read ("a.ts" : Text) ("it's 1e+éé" : Text) = .ok s ∧ s.text = ("it's 1e+éé" : Text) ∧
      ∀ (strategy : Strategy) (after : Source) (diagnostics : List Diagnostic) (outcome : Outcome),
        strategy.apply s = (after, diagnostics, .ok outcome) → outcome.replacements = 0 →
          after.changed = false ∧ after.text = ("it's 1e+éé" : Text) := by
  intro s
  have success : Source.read ("a.ts" : Text) ("it's 1e+éé" : Text) = .ok s := by decide +kernel
  obtain ⟨text, _, _, untouched⟩ := Source.read_lossless _ _ s success
  exact ⟨success, text, untouched⟩

end KeyGloss
