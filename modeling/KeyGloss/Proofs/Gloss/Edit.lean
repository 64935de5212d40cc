import KeyGloss.Gloss
import KeyGloss.Proofs.Token.Means

/-!
# Edits of a source

A gloss is put into a source, or taken out of it, by a change at one place. An edit does no harm when
it stands in code or in a comment and closes nothing that the text leaves open (`Edit.Harmless`). If
the edit is quiet besides (`Edit.Quiet`), the text still is a source, and its significant tokens are
the same (`Edit.Quiet.keeps_significant`).
-/

namespace KeyGloss

open Token (spotAt openings significant MeansFrom)

namespace Gloss

/-- A change of a text at one place. -/
structure Edit where
  before : Text
  removed : Text
  inserted : Text
  after : Text
  deriving DecidableEq, Repr

namespace Edit

/-- The text before the edit. -/
def source (e : Edit) : Text := e.before ++ (e.removed ++ e.after)

/-- The text after the edit. -/
def result (e : Edit) : Text := e.before ++ (e.inserted ++ e.after)

/-- The quotes that are left open and whose search for an end gets to the edit; whether the
character there is escaped. -/
def openQuotes (e : Edit) (tokens : List Token) : List (Char × Bool) :=
  (openings tokens).filterMap fun
    | .quote mark behind =>
      if mark = '"' ∨ mark = '\'' then
        ((e.removed ++ e.after).isSuffixOf? behind).bind fun passed =>
          (Lexeme.searchState mark false passed).map fun escaped => (mark, escaped)
      else none
    | .block _ => none

/-- Whether a block comment without an end is opened before the edit. -/
def inOpenBlock (e : Edit) (tokens : List Token) : Bool :=
  (openings tokens).any fun
    | .quote _ _ => false
    | .block behind => (e.removed ++ e.after).isSuffixOf behind

/-- What an edit may do where it stands: between tokens it takes out a gloss, or blanks that are white
space; in a line comment it ends the line only if what it moves on means nothing; in a block comment
it neither takes out nor puts in an end. -/
def Allowed (language : Language) (e : Edit) : Token.Mode → Prop
  | .code => e.inserted = [] ∨ ∀ c ∈ e.removed, isBlank c = true → Lexeme.isSpace c = true
  | .line => '\n' ∉ e.inserted ∨ MeansFrom language .code (e.after.takeWhile (· != '\n')) []
  | .block => Lexeme.blockTail? e.removed = none ∧ Lexeme.blockTail? e.inserted = none

/-- An edit of a text with the given tokens does no harm: it stands in code or in a comment and is
allowed there, and a quote or a block comment that is left open before it finds no end behind it. -/
structure Harmless (language : Language) (e : Edit) (tokens : List Token) : Prop where
  allowed : ∃ mode ∈ (spotAt tokens e.before.length).mode?, e.Allowed language mode
  quotes : ∀ quote ∈ e.openQuotes tokens,
    Lexeme.search quote.1 false quote.2 (e.inserted ++ e.after) = none
  blocks : e.inOpenBlock tokens = true → Lexeme.blockTail? (e.inserted ++ e.after) = none

instance (language : Language) (e : Edit) :
    (mode : Token.Mode) → Decidable (e.Allowed language mode)
  | .code =>
    letI := List.decidableBAll (fun c => isBlank c = true → Lexeme.isSpace c = true) e.removed
    inferInstanceAs (Decidable (_ ∨ _))
  | .line => inferInstanceAs (Decidable (_ ∨ _))
  | .block => inferInstanceAs (Decidable (_ ∧ _))

instance (language : Language) (e : Edit) (tokens : List Token) :
    Decidable (e.Harmless language tokens) :=
  letI := List.decidableBAll (fun quote : Char × Bool =>
    Lexeme.search quote.1 false quote.2 (e.inserted ++ e.after) = none) (e.openQuotes tokens)
  decidable_of_iff
    ((∃ mode ∈ (spotAt tokens e.before.length).mode?, e.Allowed language mode) ∧
      (∀ quote ∈ e.openQuotes tokens,
        Lexeme.search quote.1 false quote.2 (e.inserted ++ e.after) = none) ∧
      (e.inOpenBlock tokens = true → Lexeme.blockTail? (e.inserted ++ e.after) = none))
    ⟨fun ⟨allowed, quotes, blocks⟩ => ⟨allowed, quotes, blocks⟩,
      fun harmless => ⟨harmless.allowed, harmless.quotes, harmless.blocks⟩⟩

/-- An edit that leaves alone what stands before it, and what the text means from there on wherever
it is allowed. -/
structure Quiet (language : Language) (e : Edit) : Prop where
  stops : Lexeme.Stops (e.inserted ++ e.after)
  slash : (e.inserted ++ e.after).head? = some '/' →
    e.before.getLast? ≠ some '/' ∧ e.before.getLast? ≠ some '*'
  same : ∀ mode, e.Allowed language mode → ∀ tokens,
    MeansFrom language mode (e.removed ++ e.after) tokens →
    MeansFrom language mode (e.inserted ++ e.after) tokens

theorem Harmless.quote_stays_open {language : Language} {e : Edit} {tokens : List Token}
    (harmless : e.Harmless language tokens)
    {mark : Char} {behind : Text}
    (opened : .quote mark (behind ++ (e.removed ++ e.after)) ∈ openings tokens)
    (quote : mark = '"' ∨ mark = '\'')
    (unclosed : Lexeme.stringTail? mark false (behind ++ (e.removed ++ e.after)) = none) :
    Lexeme.stringTail? mark false (behind ++ (e.inserted ++ e.after)) = none := by
  have plain : mark ≠ '\\' := by rcases quote with rfl | rfl <;> decide
  rw [Lexeme.stringTail?_eq_search _ _ plain, Lexeme.search_append] at unclosed ⊢
  cases state : Lexeme.searchState mark false behind with
  | none => simpa [state] using unclosed
  | some escaped =>
    have listed : (mark, escaped) ∈ e.openQuotes tokens := by
      refine List.mem_filterMap.mpr ⟨_, opened, ?_⟩
      have passed := List.isSuffixOf?_eq_some_iff_append_eq.mpr
        (rfl : behind ++ (e.removed ++ e.after) = _)
      simp only [quote, if_true, passed, Option.bind_some, state, Option.map_some]
    simp [harmless.quotes _ listed]

theorem Harmless.block_stays_open {language : Language} {e : Edit} {tokens : List Token}
    (harmless : e.Harmless language tokens)
    {behind : Text} (opened : .block (behind ++ (e.removed ++ e.after)) ∈ openings tokens)
    (apart : (e.inserted ++ e.after).head? = some '/' → behind.getLast? ≠ some '*')
    (unended : Lexeme.blockTail? (behind ++ (e.removed ++ e.after)) = none) :
    Lexeme.blockTail? (behind ++ (e.inserted ++ e.after)) = none := by
  obtain ⟨⟨quiet, -⟩, -⟩ := Lexeme.blockTail?_append_eq_none.mp unended
  have within : e.inOpenBlock tokens = true := by
    refine List.any_eq_true.mpr ⟨_, opened, ?_⟩
    exact List.isSuffixOf_iff_suffix.mpr (List.suffix_append ..)
  exact Lexeme.blockTail?_append_eq_none.mpr
    ⟨⟨quiet, fun touch => apart touch.2 touch.1⟩, harmless.blocks within⟩

theorem Quiet.fits {language : Language} {e : Edit} {tokens : List Token}
    (quiet : e.Quiet language) (harmless : e.Harmless language tokens) :
    Token.Fits e.before (e.removed ++ e.after) (e.inserted ++ e.after) (openings tokens) where
  stops := quiet.stops
  slash := quiet.slash
  quotes mark behind opened quote unclosed := harmless.quote_stays_open opened quote unclosed
  blocks behind opened within unended := by
    refine harmless.block_stays_open opened (fun first last => ?_) unended
    obtain ⟨front, split⟩ := within
    exact (quiet.slash first).2 (by simp [← split, last])

/-- A quiet edit that does no harm leaves a source, and what it means. -/
theorem Quiet.keeps_significant {language : Language} {e : Edit} {tokens : List Token}
    (quiet : e.Quiet language) (harmless : e.Harmless language tokens)
    (lexes : Token.Lexes language e.source tokens) :
    ∃ tokens', Token.Lexes language e.result tokens' ∧ significant tokens' = significant tokens := by
  obtain ⟨pieces, reads, rfl⟩ := Token.lexes_iff_reads.mp lexes
  obtain ⟨mode, spot, allowed⟩ := harmless.allowed
  exact Token.lexes_iff_meansFrom.mpr
    (reads.splice spot (quiet.fits harmless) (quiet.same mode allowed))

end Edit

end Gloss

end KeyGloss
