import KeyGloss.Proofs.Token.Spot

/-!
# What a source means

A source means its significant tokens, and so does the rest of a source from a point on
(`MeansFrom`). White space and comments mean nothing. What follows a point may be exchanged for a
text that fits there and means the same (`Reads.splice`).
-/

namespace KeyGloss

open Text (LineEnds)

namespace Token

/-- What a source means when it is read on from a point: its significant tokens. -/
def MeansFrom (language : Language) (mode : Mode) (t : Text) (tokens : List Token) : Prop :=
  ∃ pieces, ReadsFrom language mode t pieces ∧ significant (joined pieces) = tokens

theorem lexes_iff_meansFrom {language : Language} {t : Text} {tokens : List Token} :
    (∃ all, Lexes language t all ∧ significant all = tokens) ↔
      MeansFrom language .code t tokens := by
  constructor
  · rintro ⟨all, lexes, equal⟩
    obtain ⟨pieces, reads, rfl⟩ := lexes_iff_reads.mp lexes
    exact ⟨pieces, reads, equal⟩
  · rintro ⟨pieces, reads, equal⟩
    exact ⟨_, lexes_iff_reads.mpr ⟨pieces, reads, rfl⟩, equal⟩

theorem mem_toOption_lex {language : Language} {t : Text} {tokens : List Token} :
    tokens ∈ (lex language t).toOption ↔ Lexes language t tokens := by
  rw [← lex_eq_ok_iff]
  cases lex language t <;> simp [Except.toOption]

instance (language : Language) (t : Text) (tokens : List Token) :
    Decidable (MeansFrom language .code t tokens) :=
  decidable_of_iff (∃ all ∈ (lex language t).toOption, significant all = tokens)
    (by simp only [mem_toOption_lex, lexes_iff_meansFrom])

theorem significant_of_alike {first second : List Piece} (alike : Alike first second) :
    significant (joined first) = significant (joined second) := alike []

theorem significant_blank_cons {blank : Piece} (after : List Piece) (quiet : blank.Blank) :
    significant (joined (blank :: after)) = significant (joined after) :=
  significant_joined_blank [] after quiet

section Blanks

variable {language : Language} {tokens : List Token}

theorem meansFrom_space {s : Text} (t : Text) (spaces : ∀ c ∈ s, Lexeme.isSpace c = true) :
    MeansFrom language .code (s ++ t) tokens ↔ MeansFrom language .code t tokens := by
  by_cases empty : s = []
  · simp [empty]
  have quiet (pieces : List Piece) :
      significant (joined (space s :: pieces)) = significant (joined pieces) :=
    significant_blank_cons pieces rfl
  constructor
  · rintro ⟨pieces, reads, rfl⟩
    obtain ⟨rest, later, alike⟩ := reads_of_space empty spaces reads
    exact ⟨rest, later, by rw [significant_of_alike alike, quiet]⟩
  · rintro ⟨pieces, reads, rfl⟩
    obtain ⟨more, whole, alike⟩ := reads_space empty spaces reads
    exact ⟨more, whole, by rw [significant_of_alike alike, quiet]⟩

theorem meansFrom_line {x t : Text} (single : '\n' ∉ x) (ends : LineEnds t) :
    MeansFrom language .line (x ++ t) tokens ↔ MeansFrom language .code t tokens := by
  simp only [MeansFrom, ReadsFrom, Text.dropWhile_line single ends]

theorem meansFrom_lexeme {c : Char} {r : Text} {kind : TokenKind} {n : Nat}
    (rule : Lexeme.scan c r = some (kind, n)) (quiet : kind.isSignificant = false) :
    MeansFrom language .code (c :: r) tokens ↔ MeansFrom language .code (r.drop n) tokens := by
  constructor
  · rintro ⟨pieces, reads, rfl⟩
    obtain ⟨known, later, rfl, onwards⟩ := Reads.of_scan reads rule
    exact ⟨later, onwards, (significant_blank_cons later (blank_lexeme _ _ quiet known)).symm⟩
  · rintro ⟨pieces, reads, rfl⟩
    exact ⟨_, Reads.lexeme rule reads, significant_blank_cons pieces (blank_lexeme _ _ quiet _)⟩

theorem meansFrom_comment {x t : Text} (single : '\n' ∉ x) (ends : LineEnds t) :
    MeansFrom language .code ('/' :: '/' :: (x ++ t)) tokens ↔
      MeansFrom language .code t tokens := by
  have rule : Lexeme.scan '/' ('/' :: (x ++ t)) =
      some (.comment, Lexeme.run (· != '\n') (x ++ t) + 1) := by
    rw [Lexeme.scan_slash, Lexeme.slash_line, Nat.add_comm]
  rw [meansFrom_lexeme rule rfl, List.drop_succ_cons, drop_run, Text.dropWhile_line single ends]

theorem significant_consStray_ne_nil (c : Char) (tokens : List Token) :
    significant (consStray c tokens) ≠ [] := by
  rcases consStray_cases c tokens with ⟨value, rest, -, equal⟩ | ⟨-, equal⟩ <;>
    simp [equal, significant, TokenKind.isSignificant]

theorem meansFrom_leading_space {c : Char} (r t : Text) (here : Lexeme.isSpace c = true) :
    MeansFrom language .code (c :: (r ++ t)) tokens ↔
      MeansFrom language .code (r.drop (Lexeme.run Lexeme.isSpace r) ++ t) tokens := by
  have spaces : ∀ d ∈ c :: r.takeWhile Lexeme.isSpace, Lexeme.isSpace d = true := by
    intro d member
    rcases List.mem_cons.mp member with rfl | member
    · exact here
    · exact List.mem_takeWhile_imp member
  rw [drop_run, ← meansFrom_space (r.dropWhile Lexeme.isSpace ++ t) spaces, List.cons_append,
    ← List.append_assoc, List.takeWhile_append_dropWhile]

theorem meansFrom_block_comment {x : Text} {n : Nat} (t : Text)
    (found : Lexeme.blockTail? x = some n) (bound : n ≤ x.length) :
    MeansFrom language .code ('/' :: '*' :: (x ++ t)) tokens ↔
      MeansFrom language .code (x.drop n ++ t) tokens := by
  have ends : Lexeme.blockTail? (x ++ t) = some n :=
    Lexeme.blockTail?_exchange x [] t (by rwa [List.append_nil]) bound
  have rule : Lexeme.scan '/' ('*' :: (x ++ t)) = some (.blockComment, n + 1) := by
    rw [Lexeme.scan_slash, Lexeme.slash_block, ends, Nat.add_comm]
  rw [meansFrom_lexeme rule rfl, List.drop_succ_cons, List.drop_append_of_le_length bound]

/-- A lexeme that means nothing, in the line before `t`. -/
theorem meansFrom_blank_lexeme {c : Char} {r t : Text} {kind : TokenKind} {n : Nat}
    (rule : Lexeme.scan c r = some (kind, n)) (quiet : kind.isSignificant = false)
    (single : '\n' ∉ r) (ends : LineEnds t)
    (later : MeansFrom language .code (r.drop n ++ t) tokens ↔ MeansFrom language .code t tokens) :
    MeansFrom language .code (c :: (r ++ t)) tokens ↔ MeansFrom language .code t tokens := by
  have bound := Lexeme.scan_le_length rule
  cases Lexeme.rule_of_scan rule with
  | space here => rw [meansFrom_leading_space r t here, later]
  | @line x slash again =>
    subst slash again
    exact meansFrom_comment (fun feed => single (List.mem_cons_of_mem _ feed)) ends
  | @block x k slash star found =>
    subst slash star
    simp only [List.length_cons] at bound
    rw [Nat.add_comm, List.drop_succ_cons] at later
    rw [List.cons_append, meansFrom_block_comment t found (by omega), later]
  | word => cases quiet
  | number => cases quiet
  | string literal => cases kind <;> simp_all [TokenKind.isString, TokenKind.isSignificant]
  | symbol found =>
    rcases (Lexeme.symbol?_eq_some found).1 with rfl | rfl <;> cases quiet

theorem ofLexeme_isSignificant (language : Language) (kind : TokenKind) (value : Text) :
    (ofLexeme language kind value).kind.isSignificant = kind.isSignificant := by
  unfold ofLexeme
  split
  · next word => rw [word.1]; rfl
  · rfl

/-- A line that means nothing may stand before any other. -/
theorem meansFrom_blank_line {x t : Text} (single : '\n' ∉ x) (ends : LineEnds t)
    (blank : MeansFrom language .code x []) :
    MeansFrom language .code (x ++ t) tokens ↔ MeansFrom language .code t tokens := by
  obtain ⟨pieces, reads, nothing⟩ := blank
  change Reads language x pieces at reads
  induction reads with
  | nil => rfl
  | @lexeme c r kind n pieces rule rest ih =>
    obtain ⟨quiet, nothing⟩ : kind.isSignificant = false ∧ significant (joined pieces) = [] := by
      simpa [joined, significant, ofLexeme_isSignificant] using nothing
    have inner : '\n' ∉ r := fun feed => single (List.mem_cons_of_mem c feed)
    exact meansFrom_blank_lexeme rule quiet inner ends
      (ih (fun feed => inner (List.mem_of_mem_drop feed)) nothing)
  | stray => exact absurd nothing (significant_consStray_ne_nil _ _)

/-- A lexeme that means something is a token of its own. -/
theorem meansFrom_token {c : Char} {r : Text} {kind : TokenKind} {n : Nat}
    (rule : Lexeme.scan c r = some (kind, n)) (loud : kind.isSignificant = true) :
    MeansFrom language .code (c :: r) tokens ↔
      ∃ rest, tokens = ofLexeme language kind (c :: r.take n) :: rest ∧
        MeansFrom language .code (r.drop n) rest := by
  have heard (known : (ofLexeme language kind (c :: r.take n)).kind ≠ .error) (later : List Piece) :
      significant (joined (.lexeme _ known :: later)) =
        ofLexeme language kind (c :: r.take n) :: significant (joined later) := by
    simp [joined, significant, ofLexeme_isSignificant, loud]
  constructor
  · rintro ⟨pieces, reads, rfl⟩
    obtain ⟨known, later, rfl, onwards⟩ := Reads.of_scan reads rule
    exact ⟨_, heard known later, later, onwards, rfl⟩
  · rintro ⟨rest, rfl, pieces, reads, rfl⟩
    exact ⟨_, Reads.lexeme rule reads, heard _ pieces⟩

/-- A comma is a token of its own. -/
theorem meansFrom_comma (t : Text) :
    MeansFrom language .code (',' :: t) tokens ↔
      ∃ rest, tokens = ⟨.punctuation, [',']⟩ :: rest ∧ MeansFrom language .code t rest :=
  meansFrom_token (Lexeme.scan_comma t) rfl

/-- A block comment goes on over a text that holds no end of it. -/
theorem meansFrom_block {x t : Text} (quiet : Lexeme.NoBlockEnd x t) :
    MeansFrom language .block (x ++ t) tokens ↔ MeansFrom language .block t tokens := by
  have rest (n : Nat) : (x ++ t).drop (n + x.length) = t.drop n := by
    rw [Nat.add_comm, List.drop_length_add_append]
  simp only [MeansFrom, ReadsFrom, Lexeme.blockTail?_append quiet]
  constructor
  · rintro ⟨pieces, ⟨_, ends, reads⟩, equal⟩
    obtain ⟨n, found, rfl⟩ := Option.map_eq_some_iff.mp ends
    exact ⟨pieces, ⟨n, found, rest n ▸ reads⟩, equal⟩
  · rintro ⟨pieces, ⟨n, found, reads⟩, equal⟩
    exact ⟨pieces, ⟨_, Option.map_eq_some_iff.mpr ⟨n, found, rfl⟩, (rest n).symm ▸ reads⟩, equal⟩

end Blanks

theorem Reads.startsStray_eq_false {language : Language} {t : Text} {pieces : List Piece}
    (reads : Reads language t pieces) (stops : Lexeme.Stops t) : startsStray pieces = false := by
  cases reads with
  | nil => rfl
  | lexeme => rfl
  | @stray c t _ noRule =>
    have stop := stops c rfl
    obtain ⟨space, -, -, slash⟩ := Lexeme.scan_eq_none_cases noRule
    simp only [Lexeme.isStop, Bool.or_eq_true, beq_iff_eq] at stop
    rcases stop with (((rfl | rfl) | rfl) | rfl) | rfl
    · cases space
    · rw [Lexeme.scan_comma] at noRule
      cases noRule
    · cases space
    · cases space
    · exact absurd rfl slash

/-- Strays could touch over a point only if it lies in code. -/
theorem Passes.apart {language : Language} {a b : Text} {mode : Mode} {pieces more : List Piece}
    {opened : List Opening} (passes : Passes language b a mode pieces opened)
    (code : mode = .code → startsStray more = false) : Apart pieces more := by
  induction passes with
  | done => trivial
  | space => trivial
  | line => trivial
  | block => trivial
  | lexeme _ _ _ _ ih => exact ih code
  | @stray c r mode pieces _ _ _ rest ih =>
    cases pieces with
    | cons piece pieces => exact ih code
    | nil =>
      cases rest
      exact code rfl

/-- What may follow a point instead: text that starts with a stop, makes no comment with what stands
before it, and closes nothing that was left open. -/
structure Fits (a b b' : Text) (opened : List Opening) : Prop where
  stops : Lexeme.Stops b'
  slash : b'.head? = some '/' → a.getLast? ≠ some '/' ∧ a.getLast? ≠ some '*'
  quotes : ∀ mark behind, .quote mark (behind ++ b) ∈ opened → mark = '"' ∨ mark = '\'' →
    Lexeme.stringTail? mark false (behind ++ b) = none →
    Lexeme.stringTail? mark false (behind ++ b') = none
  blocks : ∀ behind, .block (behind ++ b) ∈ opened → behind <:+ a →
    Lexeme.blockTail? (behind ++ b) = none → Lexeme.blockTail? (behind ++ b') = none

/-- What follows a point may be exchanged for a text that fits and means the same from there on. -/
theorem Reads.splice {language : Language} {a b b' : Text} {mode : Mode} {pieces : List Piece}
    (reads : Reads language (a ++ b) pieces)
    (spot : (spotAt (joined pieces) a.length).mode? = some mode)
    (fits : Fits a b b' (openings (joined pieces)))
    (same : ∀ tokens, MeansFrom language mode b tokens → MeansFrom language mode b' tokens) :
    MeansFrom language .code (a ++ b') (significant (joined pieces)) := by
  obtain ⟨before, rest, opened, split⟩ := reads.split spot
  obtain ⟨more, onwards, equal⟩ := same _ ⟨rest, split.onwards, rfl⟩
  have passes := split.passes.exchange fits.stops (fun first => (fits.slash first).1)
    (fun mark behind member => fits.quotes mark behind (split.listed _ member))
    (fun behind member => fits.blocks behind (split.listed _ member))
  have apart : Apart before more := passes.apart fun code => by
    subst code
    exact Reads.startsStray_eq_false onwards fits.stops
  obtain ⟨pieces', reads', alike⟩ := passes.join onwards fun first => (fits.slash first).2
  refine ⟨pieces', reads', ?_⟩
  calc
    significant (joined pieces') = significant (joined before) ++ significant (joined more) := by
      rw [significant_of_alike alike, joined_append apart, significant_append]
    _ = significant (joined before) ++ significant (joined rest) := by rw [equal]
    _ = significant (joined pieces) := by
      rw [significant_of_alike split.alike, joined_append split.apart, significant_append]

end Token

end KeyGloss
