import KeyGloss.Proofs.Text
import KeyGloss.Proofs.Token.Lookahead
import KeyGloss.Proofs.Token.Pieces

/-!
# Reading on from a point of a source

A source is read up to a point (`Passes`) and on from there (`ReadsFrom`), in code or in a comment,
and the two together are the whole (`Passes.join`). What was read up to the point stays the same when
something else follows it, as long as nothing that was left open is closed (`Passes.exchange`).
-/

namespace KeyGloss

namespace Token

open Lexeme (isSpace run scan)

theorem ofLexeme_of_ne_name (language : Language) {kind : TokenKind} (value : Text)
    (other : kind ≠ .name) : ofLexeme language kind value = ⟨kind, value⟩ := by
  simp [ofLexeme, other]

/-- The only way to read on where a rule applies. -/
theorem Reads.of_scan {language : Language} {c : Char} {r : Text} {kind : TokenKind} {n : Nat}
    {pieces : List Piece} (reads : Reads language (c :: r) pieces)
    (rule : scan c r = some (kind, n)) :
    ∃ known rest, pieces = .lexeme (ofLexeme language kind (c :: r.take n)) known :: rest ∧
      Reads language (r.drop n) rest := by
  cases reads with
  | lexeme found rest =>
    obtain ⟨rfl, rfl⟩ := Prod.mk.inj (Option.some.inj (found.symm.trans rule))
    exact ⟨_, _, rfl, rest⟩
  | stray noRule => exact absurd (noRule.symm.trans rule) (by simp)

/-- A piece of white space. -/
def space (value : Text) : Piece := .lexeme ⟨.text, value⟩ (by simp)

theorem blank_lexeme (language : Language) {kind : TokenKind} (value : Text)
    (quiet : kind.isSignificant = false) (known : (ofLexeme language kind value).kind ≠ .error) :
    (Piece.lexeme (ofLexeme language kind value) known).Blank := by
  have other : kind ≠ .name := by
    rintro rfl
    cases quiet
  simpa [Piece.Blank, ofLexeme_of_ne_name language value other] using quiet

theorem blank_text (language : Language) (value : Text)
    (known : (ofLexeme language .text value).kind ≠ .error) :
    (Piece.lexeme (ofLexeme language .text value) known).Blank :=
  blank_lexeme language value rfl known

theorem drop_run (p : Char → Bool) (t : Text) : t.drop (run p t) = t.dropWhile p := by
  have split := List.takeWhile_append_dropWhile (p := p) (l := t)
  calc
    t.drop (run p t) = (t.takeWhile p ++ t.dropWhile p).drop (run p t) := by rw [split]
    _ = t.dropWhile p := List.drop_left ..

theorem exists_space_of_run {t : Text} (more : run isSpace t ≠ 0) :
    ∃ d r, t = d :: r ∧ isSpace d = true ∧ run isSpace t = run isSpace r + 1 := by
  cases t with
  | nil => exact absurd rfl more
  | cons d r =>
    rw [Lexeme.run_cons] at more ⊢
    cases holds : isSpace d with
    | false => simp [holds] at more
    | true => exact ⟨d, r, rfl, holds, by simp⟩

/-- White space may be read before any text; it joins white space that follows. -/
theorem reads_space {language : Language} {s t : Text} {pieces : List Piece} (notEmpty : s ≠ [])
    (spaces : ∀ c ∈ s, isSpace c = true) (reads : Reads language t pieces) :
    ∃ more, Reads language (s ++ t) more ∧ Alike more (space s :: pieces) := by
  obtain ⟨c, s, rfl⟩ := List.exists_cons_of_ne_nil notEmpty
  have rule := Lexeme.scan_of_space (s ++ t) (spaces c (by simp))
  rw [Lexeme.run_append t fun d member => spaces d (List.mem_cons_of_mem c member)] at rule
  by_cases more : run isSpace t = 0
  · rw [more] at rule
    exact ⟨_, .lexeme rule (by simpa using reads), alike_blank pieces (blank_text ..) rfl⟩
  · obtain ⟨d, r, rfl, here, longer⟩ := exists_space_of_run more
    obtain ⟨known, rest, rfl, later⟩ := reads.of_scan (Lexeme.scan_of_space r here)
    refine ⟨_, .lexeme rule ?_, alike_blank_blank rest (blank_text ..) rfl (blank_text ..)⟩
    rwa [List.drop_length_add_append, longer, List.drop_succ_cons]

/-- What follows white space can be read by itself. -/
theorem reads_of_space {language : Language} {s t : Text} {pieces : List Piece} (notEmpty : s ≠ [])
    (spaces : ∀ c ∈ s, isSpace c = true) (reads : Reads language (s ++ t) pieces) :
    ∃ rest, Reads language t rest ∧ Alike pieces (space s :: rest) := by
  obtain ⟨c, s, rfl⟩ := List.exists_cons_of_ne_nil notEmpty
  have rule := Lexeme.scan_of_space (s ++ t) (spaces c (by simp))
  rw [Lexeme.run_append t fun d member => spaces d (List.mem_cons_of_mem c member)] at rule
  rw [List.cons_append] at reads
  obtain ⟨known, rest, rfl, later⟩ := reads.of_scan rule
  rw [List.drop_length_add_append] at later
  by_cases more : run isSpace t = 0
  · rw [more, List.drop_zero] at later
    exact ⟨rest, later, alike_blank rest (blank_text ..) rfl⟩
  · obtain ⟨d, r, rfl, here, longer⟩ := exists_space_of_run more
    rw [longer, List.drop_succ_cons] at later
    exact ⟨_, .lexeme (Lexeme.scan_of_space r here) later,
      alike_blank_blank rest (blank_text ..) rfl (blank_text ..)⟩

/-- What the lexer is in at a point of a source: code, a line comment or a block comment. -/
inductive Mode where
  | code
  | line
  | block

/-- How a source is read on from a point. -/
def ReadsFrom (language : Language) : Mode → Text → List Piece → Prop
  | .code, t, pieces => Reads language t pieces
  | .line, t, pieces => Reads language (t.dropWhile (· != '\n')) pieces
  | .block, t, pieces => ∃ n, Lexeme.blockTail? t = some n ∧ Reads language (t.drop n) pieces

/-- Something the text leaves open: a quote without an end, or a block comment; with what follows. -/
inductive Opening where
  | quote (mark : Char) (behind : Text)
  | block (behind : Text)

/-- What a lexeme of one character leaves open: a slash before a star opens no comment when the
comment would have no end. -/
def opening (c : Char) (behind : Text) (length : Nat) : List Opening :=
  match c, length, behind with
  | '/', 0, '*' :: r => [.block r]
  | _, _, _ => []

/-- Reading a text that `b` follows, from code up to `b`: the mode there, the pieces on the way, and
what is left open. -/
inductive Passes (language : Language) (b : Text) : Text → Mode → List Piece → List Opening → Prop
  | done : Passes language b [] .code [] []
  | space {a : Text} (notEmpty : a ≠ []) (spaces : ∀ c ∈ a, isSpace c = true) :
      Passes language b a .code [space a] []
  | line {r : Text} (single : '\n' ∉ r) :
      Passes language b ('/' :: '/' :: r) .line
        [.lexeme ⟨.comment, '/' :: '/' :: r⟩ (by simp)] []
  | block {r : Text} (unended : Lexeme.blockTail? r = none) :
      Passes language b ('/' :: '*' :: r) .block
        [.lexeme ⟨.blockComment, '/' :: '*' :: r⟩ (by simp)] []
  | lexeme {c : Char} {r : Text} {kind : TokenKind} {n : Nat} {mode : Mode} {pieces : List Piece}
      {openings : List Opening} (rule : scan c (r ++ b) = some (kind, n)) (within : n ≤ r.length)
      (inner : kind = .text ∨ kind = .comment → n < r.length)
      (rest : Passes language b (r.drop n) mode pieces openings) :
      Passes language b (c :: r) mode
        (.lexeme (ofLexeme language kind (c :: r.take n))
          (ofLexeme_kind_ne_error language _ (scan_kind_ne_error rule)) :: pieces)
        (opening c r n ++ openings)
  | stray {c : Char} {r : Text} {mode : Mode} {pieces : List Piece} {openings : List Opening}
      (noRule : scan c (r ++ b) = none) (closed : c ≠ '\x60')
      (rest : Passes language b r mode pieces openings) :
      Passes language b (c :: r) mode (.stray c :: pieces) (.quote c r :: openings)

theorem getLast?_of_drop {x : Text} {n : Nat} {c : Char} (last : (x.drop n).getLast? = some c) :
    x.getLast? = some c := by
  rw [List.getLast?_drop] at last
  split at last
  · cases last
  · exact last

theorem getLast?_cons_of {x : Text} {c d : Char} (last : x.getLast? = some c) :
    (d :: x).getLast? = some c := by
  rw [List.getLast?_cons, last, Option.getD_some]

/-- Reading up to a point and on from there is reading the whole. -/
theorem Passes.join {language : Language} {a b : Text} {mode : Mode} {pieces rest : List Piece}
    {openings : List Opening} (passes : Passes language b a mode pieces openings)
    (onwards : ReadsFrom language mode b rest)
    (slash : b.head? = some '/' → a.getLast? ≠ some '*') :
    ∃ more, Reads language (a ++ b) more ∧ Alike more (pieces ++ rest) := by
  induction passes with
  | done => exact ⟨rest, onwards, .refl _⟩
  | space some spaces => exact reads_space some spaces onwards
  | @line r single =>
    have rule : scan '/' ('/' :: r ++ b) = some (.comment, 1 + (r.length + run (· != '\n') b)) := by
      rw [Lexeme.scan_slash, List.cons_append, Lexeme.slash_line,
        Lexeme.run_append b (Text.inside_line single)]
    refine ⟨_, .lexeme rule ?_, alike_blank rest (blank_lexeme _ _ rfl _) rfl⟩
    rw [Nat.add_comm 1, List.cons_append, List.drop_succ_cons, List.drop_length_add_append, drop_run]
    exact onwards
  | @block r unended =>
    obtain ⟨n, ends, later⟩ := onwards
    have quiet : Lexeme.NoBlockEnd r b :=
      ⟨unended, fun touch => slash touch.2 (getLast?_cons_of (getLast?_cons_of touch.1))⟩
    have rule : scan '/' ('*' :: r ++ b) = some (.blockComment, 1 + (n + r.length)) := by
      rw [Lexeme.scan_slash, List.cons_append, Lexeme.slash_block, Lexeme.blockTail?_append quiet,
        ends]
      rfl
    refine ⟨_, .lexeme rule ?_, alike_blank rest (blank_lexeme _ _ rfl _) rfl⟩
    rw [Nat.add_comm 1, Nat.add_comm n, List.cons_append, List.drop_succ_cons,
      List.drop_length_add_append]
    exact later
  | @lexeme c r kind n mode pieces openings rule within inner passed ih =>
    obtain ⟨more, reads, alike⟩ := ih onwards fun first last =>
      slash first (getLast?_cons_of (getLast?_of_drop last))
    have whole := Reads.lexeme rule (by rwa [List.drop_append_of_le_length within])
    simp only [List.take_append_of_le_length within] at whole
    exact ⟨_, whole, alike.cons _⟩
  | @stray c r mode pieces openings noRule closed passed ih =>
    obtain ⟨more, reads, alike⟩ := ih onwards fun first last => slash first (getLast?_cons_of last)
    exact ⟨_, .stray noRule closed reads, alike.cons _⟩

/-- What follows a text may be exchanged without a change to how the text is read, when nothing that
was left open is closed by it. -/
theorem Passes.exchange {language : Language} {a b b' : Text} {mode : Mode} {pieces : List Piece}
    {openings : List Opening} (passes : Passes language b a mode pieces openings)
    (stops : Lexeme.Stops b') (slash : b'.head? = some '/' → a.getLast? ≠ some '/')
    (quotes : ∀ mark behind, .quote mark behind ∈ openings → mark = '"' ∨ mark = '\'' →
      Lexeme.stringTail? mark false (behind ++ b) = none →
      Lexeme.stringTail? mark false (behind ++ b') = none)
    (blocks : ∀ behind, .block behind ∈ openings → behind <:+ a →
      Lexeme.blockTail? (behind ++ b) = none → Lexeme.blockTail? (behind ++ b') = none) :
    Passes language b' a mode pieces openings := by
  induction passes with
  | done => exact .done
  | space some spaces => exact .space some spaces
  | line single => exact .line single
  | block unended => exact .block unended
  | @lexeme c r kind n mode pieces openings rule within inner passed ih =>
    have exchange : Lexeme.Exchange c r b b' := by
      refine ⟨stops, ?_, ?_⟩
      · rintro rfl rfl first
        exact slash first rfl
      · rintro behind rfl rfl unended
        have length : n = 0 := by
          rw [List.cons_append, Lexeme.scan_slash, Lexeme.slash_block, unended] at rule
          simp only [Lexeme.symbol?_slash_star, Option.some.injEq, Prod.mk.injEq] at rule
          exact rule.2.symm
        subst length
        exact blocks behind (by simp [opening]) ⟨['/', '*'], rfl⟩ unended
    refine .lexeme (Lexeme.scan_exchange rule within inner exchange) within inner (ih ?_ ?_ ?_)
    · exact fun first last => slash first (getLast?_cons_of (getLast?_of_drop last))
    · exact fun mark behind member => quotes mark behind (List.mem_append_right _ member)
    · intro behind member within
      exact blocks behind (List.mem_append_right _ member)
        (within.trans ((List.drop_suffix n r).trans (List.suffix_cons c r)))
  | @stray c r mode pieces openings noRule closed passed ih =>
    have unclosed : Lexeme.QuoteMark c →
        Lexeme.stringTail? c (c == '\x60') (r ++ b') = none := by
      intro quote
      have mark : c = '"' ∨ c = '\'' := by
        rcases quote with double | single | backtick
        · exact .inl double
        · exact .inr single
        · exact absurd backtick closed
      rw [Lexeme.scan_of_quote _ quote, Option.map_eq_none_iff] at noRule
      rw [beq_eq_false_iff_ne.mpr closed] at noRule ⊢
      exact quotes c r (by simp) mark noRule
    refine .stray (Lexeme.scan_eq_none_exchange noRule stops unclosed) closed (ih ?_ ?_ ?_)
    · exact fun first last => slash first (getLast?_cons_of last)
    · exact fun mark behind member => quotes mark behind (List.mem_cons_of_mem _ member)
    · intro behind member within
      exact blocks behind (List.mem_cons_of_mem _ member) (within.trans (List.suffix_cons c r))

end Token

end KeyGloss
