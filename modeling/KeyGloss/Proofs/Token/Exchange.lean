import KeyGloss.Proofs.Token.Literals
import KeyGloss.Proofs.Token.Spot

/-!
# Literals exchanged for references

When literals behind a parenthesis or a blank are exchanged for words and dots (`Swaps`), the text is
cut anew from each of them on: a reference may join the word or the number that follows it. But words
and dots are inert, they close no quote and no comment that was left open before them
(`Exchanged.search_eq_none`, `Exchanged.blockTail?_eq_none`), and so the literals that were not
exchanged are all that is found (`Lexes.literals_of_swaps`).
-/

namespace KeyGloss

namespace Token

open Lexeme (isInert isWordPart run scan search QuoteMark quoteKind commentTail? stringTail? blockTail?)

/-- A character of a reference: part of a word, or a dot. -/
def isPlain (c : Char) : Bool := isWordPart c || c == '.'

/-- A character behind which literals are exchanged. -/
def Opener (c : Char) : Prop := c = '(' ∨ c = ' '

/-- A text with some quoted words exchanged for other words. -/
inductive Exchanged : Text → Text → Prop
  | nil : Exchanged [] []
  | keep (c : Char) {t t' : Text} (rest : Exchanged t t') : Exchanged (c :: t) (c :: t')
  | swap {opener mark : Char} {word plain t t' : Text} (opens : Opener opener)
      (quote : QuoteMark mark) (old : ∀ c ∈ word, isPlain c = true)
      (new : ∀ c ∈ plain, isPlain c = true) (rest : Exchanged t t') :
      Exchanged (opener :: mark :: (word ++ mark :: t)) (opener :: (plain ++ t'))

theorem Exchanged.append {t t' : Text} (x : Text) (exchanged : Exchanged t t') :
    Exchanged (x ++ t) (x ++ t') := by
  induction x with
  | nil => exact exchanged
  | cons c x ih => exact .keep c ih

theorem Exchanged.head?_eq {t t' : Text} (exchanged : Exchanged t t') : t'.head? = t.head? := by
  cases exchanged <;> rfl

theorem isInert_of_isPlain : Lexeme.Inert isPlain := Lexeme.inert_of_cases (by decide)

theorem isInert_of_opener {c : Char} (opens : Opener c) : isInert c = true := by
  rcases opens with rfl | rfl <;> rfl

/-- A plain character is none that a search for the end of a string looks for. -/
theorem isPlain_ne {c : Char} (plain : isPlain c = true) :
    ¬ QuoteMark c ∧ c ≠ '\\' ∧ c ≠ '\n' ∧ c ≠ '*' := by
  refine ⟨(Lexeme.isInert_iff.mp (isInert_of_isPlain c plain)).2, ?_, ?_, ?_⟩ <;>
    · rintro rfl
      revert plain
      decide

theorem opener_ne {c : Char} (opens : Opener c) :
    ¬ QuoteMark c ∧ c ≠ '\\' ∧ c ≠ '\n' ∧ c ≠ '*' := by
  rcases opens with rfl | rfl <;> decide

section Search

variable {quote : Char} {multiline : Bool}

/-- The search goes on over a character that is no end, no escape and no end of a line. -/
theorem search_cons {c : Char} (t : Text) (different : c ≠ quote) (escape : c ≠ '\\')
    (feed : c ≠ '\n') :
    search quote multiline false (c :: t) = (search quote multiline false t).map (· + 1) := by
  have unescaped : (c == '\\') = false := beq_eq_false_iff_ne.mpr escape
  simp [search, different, feed, unescaped]

/-- A text over which the search for the end of a string goes on. -/
def Free (quote : Char) (x : Text) : Prop := ∀ c ∈ x, c ≠ quote ∧ c ≠ '\\' ∧ c ≠ '\n'

theorem free_of_plain {x : Text} (mark : QuoteMark quote) (plain : ∀ c ∈ x, isPlain c = true) :
    Free quote x := by
  intro c member
  obtain ⟨noQuote, escape, feed, -⟩ := isPlain_ne (plain c member)
  refine ⟨?_, escape, feed⟩
  rintro rfl
  exact noQuote mark

theorem search_append_free {x : Text} (t : Text) (free : Free quote x) :
    search quote multiline false (x ++ t) =
      (search quote multiline false t).map (· + x.length) := by
  induction x with
  | nil => simp
  | cons c x ih =>
    obtain ⟨⟨different, escape, feed⟩, rest⟩ := List.forall_mem_cons.mp free
    rw [List.cons_append, search_cons _ different escape feed, ih rest, Option.map_map,
      List.length_cons]
    simp only [Function.comp_def, Nat.add_assoc]

/-- Behind an opener nothing is escaped. -/
theorem search_opener {c : Char} (t : Text) (mark : QuoteMark quote) (opens : Opener c)
    (escaped : Bool) :
    search quote false escaped (c :: t) = (search quote false false t).map (· + 1) := by
  obtain ⟨noQuote, escape, feed, -⟩ := opener_ne opens
  cases escaped with
  | true => rfl
  | false =>
    refine search_cons t ?_ escape feed
    rintro rfl
    exact noQuote mark

/-- A quote without an end in a text has none after the exchange. -/
theorem Exchanged.search_eq_none {t t' : Text} (exchanged : Exchanged t t')
    (mark : QuoteMark quote) (escaped : Bool)
    (unended : search quote false escaped t = none) : search quote false escaped t' = none := by
  induction exchanged generalizing escaped with
  | nil => exact unended
  | keep c rest ih =>
    cases escaped with
    | true =>
      simp only [search, Option.map_eq_none_iff] at unended ⊢
      exact ih false unended
    | false =>
      simp only [search] at unended ⊢
      split at unended
      · cases unended
      · next different =>
        rw [if_neg different]
        split at unended
        · next ends => rw [if_pos ends]
        · next goesOn =>
          rw [if_neg goesOn]
          simp only [Option.map_eq_none_iff] at unended ⊢
          exact ih _ unended
  | @swap opener other word plain t t' opens quoted old new rest ih =>
    rw [search_opener _ mark opens, Option.map_eq_none_iff] at unended ⊢
    -- The exchanged quotes are not those that the search looks for.
    have different : other ≠ quote := by
      rintro rfl
      simp [search] at unended
    have feed : other ≠ '\n' := by rcases quoted with rfl | rfl | rfl <;> decide
    have escape : other ≠ '\\' := by rcases quoted with rfl | rfl | rfl <;> decide
    rw [search_cons _ different escape feed, search_append_free _ (free_of_plain mark old),
      search_cons _ different escape feed] at unended
    simp only [Option.map_eq_none_iff] at unended
    rw [search_append_free _ (free_of_plain mark new), Option.map_eq_none_iff]
    exact ih false unended

end Search

theorem noBlockEnd_of_not_mem {x : Text} (b : Text) (noStar : '*' ∉ x) : Lexeme.NoBlockEnd x b := by
  induction x with
  | nil => exact Lexeme.noBlockEnd_nil b
  | cons c x ih =>
    simp only [List.mem_cons, not_or] at noStar
    exact Lexeme.noBlockEnd_cons.mpr ⟨fun ends => noStar.1 ends.1.symm, ih noStar.2⟩

/-- A block comment without an end in a text has none after the exchange. -/
theorem Exchanged.blockTail?_eq_none {t t' : Text} (exchanged : Exchanged t t')
    (unended : blockTail? t = none) : blockTail? t' = none := by
  induction exchanged with
  | nil => rfl
  | keep c rest ih =>
    rw [Lexeme.blockTail?_cons] at unended ⊢
    rw [rest.head?_eq]
    split at unended
    · cases unended
    · next goesOn =>
      rw [if_neg goesOn]
      simp only [Option.map_eq_none_iff] at unended ⊢
      exact ih unended
  | @swap opener mark word plain t t' opens quoted old new rest ih =>
    have split : opener :: mark :: (word ++ mark :: t) =
        (opener :: mark :: (word ++ [mark])) ++ t := by simp
    rw [split, Lexeme.blockTail?_append_eq_none] at unended
    rw [← List.cons_append, Lexeme.blockTail?_append_eq_none]
    refine ⟨noBlockEnd_of_not_mem t' ?_, ih unended.2⟩
    intro star
    rcases List.mem_cons.mp star with rfl | inside
    · exact (opener_ne opens).2.2.2 rfl
    · exact (isPlain_ne (new _ inside)).2.2.2 rfl

/-- What is no comment stays none after the exchange. -/
theorem Exchanged.commentTail?_eq_none {t t' : Text} (exchanged : Exchanged t t')
    (other : commentTail? t = none) : commentTail? t' = none := by
  by_cases line : t.head? = some '/'
  · obtain ⟨r, rfl⟩ := List.head?_eq_some_iff.mp line
    cases other
  · by_cases block : t.head? = some '*'
    · obtain ⟨r, rfl⟩ := List.head?_eq_some_iff.mp block
      cases exchanged with
      | keep _ rest =>
        simp only [commentTail?, Option.map_eq_none_iff] at other ⊢
        exact rest.blockTail?_eq_none other
      | swap opens => exact absurd rfl (opener_ne opens).2.2.2
    · rw [← exchanged.head?_eq] at line block
      exact Lexeme.commentTail?_of_other line block

/-- A comment stays the comment it was when the text behind it is exchanged. -/
theorem Exchanged.commentTail?_eq_some {x b b' : Text} (exchanged : Exchanged b b')
    (comment : commentTail? (x ++ b) = some x.length) :
    commentTail? (x ++ b') = some x.length := by
  cases x with
  | nil =>
    rw [List.nil_append] at comment
    unfold commentTail? at comment
    split at comment
    · simp at comment
    · simp only [Option.map_eq_some_iff, List.length_nil] at comment
      obtain ⟨n, -, zero⟩ := comment
      omega
    · cases comment
  | cons d y =>
    rw [List.cons_append] at comment ⊢
    unfold commentTail? at comment
    split at comment
    · next r equal =>
      obtain ⟨rfl, rfl⟩ := List.cons.inj equal
      simp only [List.length_cons, Option.some.injEq] at comment
      have whole : run (· != '\n') (y ++ b) = y.length := by omega
      have all := forall_of_length_le_run (Nat.le_of_eq whole.symm)
      have ends : run (· != '\n') b = 0 := by
        rw [Lexeme.run_append b all] at whole
        omega
      have same : run (· != '\n') (y ++ b') = y.length := by
        rw [Lexeme.run_exchange y b b' (Nat.le_of_eq whole), whole]
        intro _ c first
        rw [exchanged.head?_eq] at first
        obtain ⟨r, rfl⟩ := List.head?_eq_some_iff.mp first
        rw [Lexeme.run_cons] at ends
        split at ends
        · omega
        · next fails => exact Bool.eq_false_iff.mpr fails
      simp only [commentTail?, same, List.length_cons, Nat.add_comm 1]
    · next r equal =>
      obtain ⟨rfl, rfl⟩ := List.cons.inj equal
      obtain ⟨k, ends, length⟩ := Option.map_eq_some_iff.mp comment
      rw [List.length_cons] at length
      have same := Lexeme.blockTail?_exchange y b b' ends (by omega)
      simp only [commentTail?, same, Option.map_some, List.length_cons, Nat.add_comm 1]
      congr 1
      omega
    · cases comment

/-- Tokens with some literals exchanged for names. -/
inductive Swaps : List Token → List Token → Prop
  | nil : Swaps [] []
  | keep (token : Token) {before after : List Token} (rest : Swaps before after) :
      Swaps (token :: before) (token :: after)
  | swap {kind : TokenKind} {opener mark : Char} {word plain : Text} {before after : List Token}
      (opens : Opener opener) (symbol : kind = .punctuation ∨ kind = .text) (quote : QuoteMark mark)
      (old : ∀ c ∈ word, isPlain c = true) (new : ∀ c ∈ plain, isPlain c = true)
      (rest : Swaps before after) :
      Swaps (⟨kind, [opener]⟩ :: ⟨quoteKind mark, mark :: (word ++ [mark])⟩ :: before)
        (⟨kind, [opener]⟩ :: ⟨.name, plain⟩ :: after)

theorem Swaps.exchanged {before after : List Token} (swaps : Swaps before after) :
    Exchanged (concat before) (concat after) := by
  induction swaps with
  | nil => exact .nil
  | keep token rest ih => exact ih.append token.value
  | swap opens symbol quote old new rest ih =>
    simpa using Exchanged.swap opens quote old new ih

theorem Swaps.head?_eq {before after : List Token} (swaps : Swaps before after) :
    after.head? = before.head? := by
  cases swaps <;> rfl

/-- A lexeme that is kept: what stands behind it may be exchanged. -/
theorem literals_kept {c : Char} {x b b' : Text} {kind : TokenKind} {n : Nat}
    (rule : scan c (x ++ b) = some (kind, n)) (length : x.length = n)
    (exchanged : Exchanged b b') :
    literals (c :: (x ++ b')) = (literals b').map
      fun rest => strings [⟨kind, c :: x⟩] ++ rest := by
  by_cases slash : c = '/'
  · subst slash
    obtain ⟨other, comment | ⟨operator, inert⟩⟩ := Lexeme.scan_slash_cases rule
    · rw [← length] at comment
      simp [literals_slash, exchanged.commentTail?_eq_some comment, strings, other]
    · rw [← length] at inert
      have noComment := (exchanged.append x).commentTail?_eq_none operator
      simp [literals_slash, noComment, literals_append b' (forall_of_length_le_run inert), strings, other]
  · by_cases mark : QuoteMark c
    · rw [Lexeme.scan_of_quote _ mark] at rule
      obtain ⟨k, ends, equal⟩ := Option.map_eq_some_iff.mp rule
      cases equal
      have same := Lexeme.stringTail?_exchange b' mark ends (Nat.le_of_eq length.symm)
      have string : (quoteKind c).isString = true := by
        rcases mark with rfl | rfl | rfl <;> rfl
      simp [literals_string mark same, strings, string, ← length]
    · have inert := Lexeme.isInert_iff.mpr ⟨slash, mark⟩
      obtain ⟨within, other⟩ := Lexeme.scan_inert inert rule
      rw [← length] at within
      have all := forall_of_length_le_run within
      simp [literals_inert _ inert, literals_append b' all, strings, other]

/-- A stray that is kept stays one. -/
theorem literals_kept_stray {c : Char} {b b' : Text} (noRule : scan c b = none) (closed : c ≠ '\x60')
    (exchanged : Exchanged b b') : literals (c :: b') = literals b' := by
  obtain ⟨-, -, -, slash⟩ := Lexeme.scan_eq_none_cases noRule
  by_cases mark : QuoteMark c
  · have noEscape : c ≠ '\\' := by rcases mark with rfl | rfl | rfl <;> decide
    rw [Lexeme.scan_of_quote _ mark, Option.map_eq_none_iff, beq_eq_false_iff_ne.mpr closed,
      Lexeme.stringTail?_eq_search _ _ noEscape] at noRule
    apply literals_stray mark closed
    rw [Lexeme.stringTail?_eq_search _ _ noEscape]
    exact exchanged.search_eq_none mark false noRule
  · exact literals_inert b' (Lexeme.isInert_iff.mpr ⟨slash, mark⟩)

/-- The literal that a quoted text is. -/
theorem literals_quoted {mark : Char} {word : Text} (t : Text) (quote : QuoteMark mark)
    (free : Free mark word) :
    literals (mark :: (word ++ mark :: t)) =
      (literals t).map (⟨quoteKind mark, mark :: (word ++ [mark])⟩ :: ·) := by
  have noEscape : mark ≠ '\\' := by rcases quote with rfl | rfl | rfl <;> decide
  have found : stringTail? mark (mark == '\x60') (word ++ mark :: t) = some (word.length + 1) := by
    rw [Lexeme.stringTail?_eq_search _ _ noEscape, search_append_free _ free]
    simp [search, Nat.add_comm]
  have split : word ++ mark :: t = (word ++ [mark]) ++ t := by simp
  have length : (word ++ [mark]).length = word.length + 1 := by simp
  rw [literals_string quote found, split, ← length, List.take_left, List.drop_left]

theorem strings_quoted {mark : Char} (value : Text) (tokens : List Token) (quote : QuoteMark mark) :
    strings (⟨quoteKind mark, value⟩ :: tokens) = ⟨quoteKind mark, value⟩ :: strings tokens := by
  rcases quote with rfl | rfl | rfl <;> rfl

/-- The string tokens after an exchange are the literals of the new text. -/
theorem Lexes.literals_of_swaps {language : Language} {source : Text} {tokens after : List Token}
    (lexes : Lexes language source tokens) (swaps : Swaps tokens after) :
    literals (concat after) = some (strings after) := by
  induction lexes generalizing after with
  | nil =>
    cases swaps
    simp [literals, strings]
  | @lexeme c r kind n tokens rule rest ih =>
    have fits : (r.take n).length = n := by
      have := Lexeme.scan_le_length rule
      simp only [List.length_take]
      omega
    generalize here : ofLexeme language kind (c :: r.take n) = token at swaps
    cases swaps with
    | keep _ swaps =>
      have text : r = r.take n ++ concat tokens := by rw [rest.concat_eq, List.take_append_drop]
      rw [text] at rule
      have kept := literals_kept rule fits swaps.exchanged
      rw [← here, concat_cons, ofLexeme_value, List.cons_append, kept, ih swaps, Option.map_some,
        strings_cons (ofLexeme ..), strings_ofLexeme]
    | @swap other opener mark word plain before after opens symbol quote old new swaps =>
      -- The literal itself, were it kept, gives the literals behind it.
      have behind := ih (.keep _ swaps)
      rw [concat_cons, List.cons_append, List.append_assoc, List.singleton_append,
        literals_quoted _ quote (free_of_plain quote old), strings_quoted _ _ quote] at behind
      obtain ⟨found, later, equal⟩ := Option.map_eq_some_iff.mp behind
      obtain ⟨-, rfl⟩ := List.cons.inj equal
      have inert : ∀ d ∈ plain, isInert d = true := fun d member => isInert_of_isPlain d (new d member)
      have opening : strings (⟨other, [opener]⟩ :: ⟨.name, plain⟩ :: after) = strings after := by
        rcases symbol with rfl | rfl <;> rfl
      rw [opening, concat_cons, concat_cons, List.singleton_append,
        literals_inert _ (isInert_of_opener opens), literals_append _ inert, later]
  | @stray c r tokens noRule closed rest ih =>
    -- A stray at the front of an error token; the token is never exchanged.
    obtain ⟨after', rfl, swapped⟩ : ∃ after', after = consStray c after' ∧ Swaps tokens after' := by
      rcases consStray_cases c tokens with ⟨value, others, rfl, equal⟩ | ⟨apart, equal⟩
      · rw [equal] at swaps
        cases swaps with
        | keep _ swaps => exact ⟨_, rfl, .keep ⟨.error, value⟩ swaps⟩
        | swap opens symbol => simp at symbol
      · rw [equal] at swaps
        cases swaps with
        | @keep _ _ after swaps =>
          rw [← swaps.head?_eq] at apart
          exact ⟨after, (consStray_of_head apart).symm, swaps⟩
        | swap opens symbol => simp at symbol
    have same := swapped.exchanged
    rw [rest.concat_eq] at same
    rw [concat_consStray, literals_kept_stray noRule closed same, strings_consStray, ih swapped]

end Token

end KeyGloss
