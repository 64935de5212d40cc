import KeyGloss.Proofs.Token.Resume

/-!
# Points of a source

What a point of a source lies in can be told from the tokens (`spotAt`), and so can what the source
leaves open before it (`openings`). Where a point lies in code or in a comment, reading the source
splits there (`Reads.split`).
-/

namespace KeyGloss

namespace Token

/-- What a point of a source lies in. -/
inductive Spot where
  /-- Between two tokens, or in white space. -/
  | code
  /-- In a line comment, behind its slashes. -/
  | line
  /-- In a block comment, of which so many characters are left. -/
  | block (left : Nat)
  /-- In another token. -/
  | inside
  deriving DecidableEq, Repr

/-- What the point behind so many characters lies in. The end of a line comment belongs to it. -/
def spotAt : List Token → Nat → Spot
  | [], _ => .code
  | token :: tokens, n =>
    if n = 0 then .code
    else if n < token.value.length ∨ (n = token.value.length ∧ token.kind = .comment) then
      match token.kind with
      | .text => .code
      | .comment => if n = 1 then .inside else .line
      | .blockComment => if n = 1 then .inside else .block (token.value.length - n)
      | _ => .inside
    else spotAt tokens (n - token.value.length)

/-- The mode to read on with, unless the point lies in a token or at the end of a block comment. -/
def Spot.mode? : Spot → Option Mode
  | .code => some .code
  | .line => some .line
  | .block left => if 2 ≤ left then some .block else none
  | .inside => none

/-- The strays of an error token, with what follows each. -/
def strays : Text → Text → List Opening
  | [], _ => []
  | c :: value, behind => .quote c (value ++ behind) :: strays value behind

/-- What a token leaves open. -/
def openingsOf (token : Token) (behind : Text) : List Opening :=
  if token.kind = .error then strays token.value behind
  else
    match token.value with
    | [c] => opening c behind 0
    | _ => []

/-- Everything that tokens leave open, with what follows it. -/
def openings : List Token → List Opening
  | [] => []
  | token :: tokens => openingsOf token (concat tokens) ++ openings tokens

/-- An opening with more text behind it. -/
def Opening.extend (more : Text) : Opening → Opening
  | .quote mark behind => .quote mark (behind ++ more)
  | .block behind => .block (behind ++ more)

theorem openings_consStray (c : Char) (tokens : List Token) :
    openings (consStray c tokens) = .quote c (concat tokens) :: openings tokens := by
  rcases consStray_cases c tokens with ⟨value, rest, rfl, equal⟩ | ⟨_, equal⟩ <;>
    simp [equal, openings, openingsOf, strays]

/-- A point between two strays lies in their token. -/
theorem spotAt_between_strays (c : Char) {value : Text} (tokens : List Token) (notEmpty : value ≠ []) :
    spotAt (consStray c (⟨.error, value⟩ :: tokens)) 1 = .inside := by
  have long := List.length_pos_iff.mpr notEmpty
  simp [consStray, spotAt, long]

theorem spotAt_consStray (c : Char) (tokens : List Token) {n : Nat} (beyond : n ≠ 0) :
    spotAt (consStray c tokens) (n + 1) = spotAt tokens n := by
  rcases consStray_cases c tokens with ⟨value, rest, rfl, equal⟩ | ⟨_, equal⟩
  · simp only [equal, spotAt, List.length_cons, Nat.add_lt_add_iff_right, Nat.add_sub_add_right,
      beyond, Nat.succ_ne_zero, if_false, reduceCtorEq, and_false, or_false]
  · simp [equal, spotAt, beyond]

theorem spotAt_lexeme_beyond {token : Token} {tokens : List Token} {n : Nat}
    (beyond : token.value.length ≤ n) (comment : token.kind = .comment → token.value.length < n)
    (positive : n ≠ 0) : spotAt (token :: tokens) n = spotAt tokens (n - token.value.length) := by
  rw [spotAt, if_neg positive, if_neg]
  rintro (inside | ⟨ends, isComment⟩)
  · omega
  · have := comment isComment
    omega

theorem Passes.pieces_ne_nil {language : Language} {a b : Text} {mode : Mode}
    {pieces : List Piece} {opened : List Opening} (passes : Passes language b a mode pieces opened)
    (notEmpty : a ≠ []) : pieces ≠ [] := by
  cases passes with
  | done => exact absurd rfl notEmpty
  | space => exact List.cons_ne_nil _ _
  | line => exact List.cons_ne_nil _ _
  | block => exact List.cons_ne_nil _ _
  | lexeme => exact List.cons_ne_nil _ _
  | stray => exact List.cons_ne_nil _ _

theorem apart_stray_cons (c : Char) {pieces : List Piece} (rest : List Piece) (notEmpty : pieces ≠ [])
    (apart : Apart pieces rest) : Apart (.stray c :: pieces) rest := by
  obtain ⟨piece, pieces, rfl⟩ := List.exists_cons_of_ne_nil notEmpty
  exact apart

/-- Reading a source is split at a point: up to there, and on from there. -/
structure Splits (language : Language) (a b : Text) (mode : Mode) (pieces before rest : List Piece)
    (opened : List Opening) : Prop where
  passes : Passes language b a mode before opened
  onwards : ReadsFrom language mode b rest
  alike : Alike pieces (before ++ rest)
  apart : Apart before rest
  listed : ∀ opening ∈ opened, opening.extend b ∈ openings (joined pieces)

theorem splits_space {language : Language} {a b : Text} {pieces : List Piece} (notEmpty : a ≠ [])
    (spaces : ∀ c ∈ a, Lexeme.isSpace c = true) (reads : Reads language (a ++ b) pieces) :
    ∃ before rest opened, Splits language a b .code pieces before rest opened := by
  obtain ⟨rest, onwards, alike⟩ := reads_of_space notEmpty spaces reads
  exact ⟨_, rest, _, .space notEmpty spaces, onwards, alike, trivial, by simp⟩

theorem splits_line {language : Language} {r b : Text} {pieces : List Piece} (single : '\n' ∉ r)
    (reads : Reads language ('/' :: '/' :: (r ++ b)) pieces) :
    ∃ before rest opened, Splits language ('/' :: '/' :: r) b .line pieces before rest opened := by
  have rule : Lexeme.scan '/' ('/' :: (r ++ b)) =
      some (.comment, r.length + Lexeme.run (· != '\n') b + 1) := by
    rw [Lexeme.scan_slash, Lexeme.slash_line, Lexeme.run_append b (Text.inside_line single), Nat.add_comm]
  obtain ⟨known, rest, rfl, later⟩ := reads.of_scan rule
  rw [List.drop_succ_cons, List.drop_length_add_append, drop_run] at later
  exact ⟨_, rest, _, .line single, later, alike_blank rest (blank_lexeme _ _ rfl _) rfl, trivial,
    by simp⟩

theorem splits_block {language : Language} {r b : Text} {pieces : List Piece} {n : Nat}
    (ends : Lexeme.blockTail? (r ++ b) = some n) (beyond : r.length + 2 ≤ n)
    (reads : Reads language ('/' :: '*' :: (r ++ b)) pieces) :
    ∃ before rest opened, Splits language ('/' :: '*' :: r) b .block pieces before rest opened := by
  obtain ⟨⟨unended, -⟩, left⟩ := Lexeme.blockTail?_of_append ends beyond
  have rule : Lexeme.scan '/' ('*' :: (r ++ b)) = some (.blockComment, n + 1) := by
    rw [Lexeme.scan_slash, Lexeme.slash_block, ends, Nat.add_comm]
  obtain ⟨known, rest, rfl, later⟩ := reads.of_scan rule
  have here : (r ++ b).drop n = b.drop (n - r.length) := by
    rw [List.drop_append, List.drop_eq_nil_of_le (by omega), List.nil_append]
  rw [List.drop_succ_cons, here] at later
  exact ⟨_, rest, _, .block unended, ⟨_, left, later⟩,
    alike_blank rest (blank_lexeme _ _ rfl _) rfl, trivial, by simp⟩

theorem mem_opening {c : Char} {behind : Text} {n : Nat} {found : Opening}
    (member : found ∈ opening c behind n) :
    c = '/' ∧ n = 0 ∧ ∃ r, behind = '*' :: r ∧ found = .block r := by
  unfold opening at member
  split at member
  · exact ⟨rfl, rfl, _, rfl, List.mem_singleton.mp member⟩
  · cases member

/-- A lexeme before the point. -/
theorem splits_lexeme {language : Language} {c : Char} {r b : Text} {kind : TokenKind} {n : Nat}
    {mode : Mode} {pieces before rest : List Piece} {opened : List Opening}
    (rule : Lexeme.scan c (r ++ b) = some (kind, n)) (within : n ≤ r.length)
    (inner : kind = .text ∨ kind = .comment → n < r.length)
    (reads : Reads language (r.drop n ++ b) pieces)
    (later : Splits language (r.drop n) b mode pieces before rest opened) :
    ∃ before rest opened, Splits language (c :: r) b mode
      (.lexeme (ofLexeme language kind (c :: (r ++ b).take n))
        (ofLexeme_kind_ne_error language _ (scan_kind_ne_error rule)) :: pieces)
      before rest opened := by
  simp only [List.take_append_of_le_length within]
  refine ⟨_, rest, _, .lexeme rule within inner later.passes, later.onwards, later.alike.cons _,
    later.apart, ?_⟩
  intro opening member
  rcases List.mem_append.mp member with here | member
  · obtain ⟨rfl, rfl, r, rfl, rfl⟩ := mem_opening here
    have text : concat (joined pieces) = '*' :: (r ++ b) := reads.concat_joined
    have known := ofLexeme_kind_ne_error language ['/'] (scan_kind_ne_error rule)
    refine List.mem_append_left _ ?_
    simp [openingsOf, known, text, opening, Opening.extend]
  · exact List.mem_append_right _ (later.listed opening member)

/-- A stray before the point. -/
theorem splits_stray {language : Language} {c : Char} {r b : Text} {mode : Mode}
    {pieces before rest : List Piece} {opened : List Opening}
    (noRule : Lexeme.scan c (r ++ b) = none) (closed : c ≠ '\x60')
    (reads : Reads language (r ++ b) pieces)
    (later : Splits language r b mode pieces before rest opened)
    (apart : Apart (.stray c :: before) rest) :
    ∃ before rest opened, Splits language (c :: r) b mode (.stray c :: pieces) before rest opened := by
  refine ⟨_, rest, _, .stray noRule closed later.passes, later.onwards, later.alike.cons _, apart, ?_⟩
  have listed : openings (joined (.stray c :: pieces)) =
      .quote c (r ++ b) :: openings (joined pieces) := by
    rw [joined, openings_consStray, reads.concat_joined]
  intro opening member
  rw [listed]
  rcases List.mem_cons.mp member with rfl | member
  · exact List.mem_cons_self ..
  · exact List.mem_cons_of_mem _ (later.listed opening member)

theorem ofLexeme_kind_eq_iff {language : Language} {kind other : TokenKind} (value : Text)
    (plain : other ≠ .name) (reserved : other ≠ .keyword) :
    (ofLexeme language kind value).kind = other ↔ kind = other := by
  unfold ofLexeme
  split
  · next word => simp [word.1, plain.symm, reserved.symm]
  · rfl

theorem spotAt_within {token : Token} {tokens : List Token} {n : Nat} (positive : n ≠ 0)
    (within : n < token.value.length) (text : token.kind ≠ .text) (line : token.kind ≠ .comment)
    (block : token.kind ≠ .blockComment) : spotAt (token :: tokens) n = .inside := by
  rw [spotAt, if_neg positive, if_pos (.inl within)]
  split <;> simp_all

@[simp] theorem spotAt_zero (tokens : List Token) : spotAt tokens 0 = .code := by
  cases tokens with
  | nil => rfl
  | cons token tokens => simp [spotAt]

theorem spotAt_line {value : Text} {tokens : List Token} {n : Nat} (positive : n ≠ 0)
    (within : n ≤ value.length) :
    spotAt (⟨.comment, value⟩ :: tokens) n = if n = 1 then .inside else .line := by
  have reached : n < value.length ∨ (n = value.length ∧ TokenKind.comment = .comment) := by
    rcases Nat.lt_or_eq_of_le within with before | ends
    · exact .inl before
    · exact .inr ⟨ends, rfl⟩
  rw [spotAt, if_neg positive, if_pos reached]

theorem spotAt_block {value : Text} {tokens : List Token} {n : Nat} (positive : n ≠ 0)
    (within : n < value.length) :
    spotAt (⟨.blockComment, value⟩ :: tokens) n =
      if n = 1 then .inside else .block (value.length - n) := by
  rw [spotAt, if_neg positive, if_pos (.inl within)]

theorem splits_nil {language : Language} {b : Text} {pieces : List Piece} {mode : Mode}
    (reads : Reads language b pieces) (spot : (spotAt (joined pieces) 0).mode? = some mode) :
    ∃ before rest opened, Splits language [] b mode pieces before rest opened := by
  rw [spotAt_zero] at spot
  cases spot
  exact ⟨[], pieces, [], .done, reads, .refl _, trivial, by simp⟩

theorem forall_of_length_le_run {p : Char → Bool} {x b : Text}
    (through : x.length ≤ Lexeme.run p (x ++ b)) : ∀ c ∈ x, p c = true := by
  induction x with
  | nil => simp
  | cons c x ih =>
    rw [List.cons_append, Lexeme.run_cons] at through
    split at through
    · next holds =>
      simp only [List.length_cons, Nat.add_le_add_iff_right] at through
      simpa [holds] using ih through
    · simp at through

/-- A lexeme that reaches the point or goes on over it: only white space and comments may. -/
theorem splits_reaching {language : Language} {c : Char} {r b : Text} {kind : TokenKind} {n : Nat}
    {mode : Mode} {pieces : List Piece} (rule : Lexeme.scan c (r ++ b) = some (kind, n))
    (reaching : r.length < n ∨ (r.length = n ∧ (kind = .text ∨ kind = .comment)))
    (reads : Reads language ((r ++ b).drop n) pieces)
    (spot : (spotAt (ofLexeme language kind (c :: (r ++ b).take n) :: joined pieces)
      (r.length + 1)).mode? = some mode) :
    ∃ before rest opened, Splits language (c :: r) b mode
      (.lexeme (ofLexeme language kind (c :: (r ++ b).take n))
        (ofLexeme_kind_ne_error language _ (scan_kind_ne_error rule)) :: pieces)
      before rest opened := by
  have whole := Reads.lexeme rule reads
  have bound := Lexeme.scan_le_length rule
  have length : (ofLexeme language kind (c :: (r ++ b).take n)).value.length = n + 1 := by
    simp only [ofLexeme_value, List.length_cons, List.length_take]
    omega
  have inside (text : kind ≠ .text) (line : kind ≠ .comment) (block : kind ≠ .blockComment) :
      False := by
    have beyond : r.length < n := reaching.resolve_right fun ends => ends.2.elim text line
    rw [spotAt_within (Nat.succ_ne_zero _) (by omega)] at spot
    · cases spot
    · rwa [Ne, ofLexeme_kind_eq_iff _ (by simp) (by simp)]
    · rwa [Ne, ofLexeme_kind_eq_iff _ (by simp) (by simp)]
    · rwa [Ne, ofLexeme_kind_eq_iff _ (by simp) (by simp)]
  cases Lexeme.rule_of_scan rule with
  | space here =>
    have code : mode = .code := by
      rw [ofLexeme_of_ne_name language _ (by simp)] at spot length
      rw [spotAt, if_neg (Nat.succ_ne_zero _)] at spot
      split at spot
      · exact (Option.some.inj spot).symm
      · have zero : r.length + 1 - (Lexeme.run Lexeme.isSpace (r ++ b) + 1) = 0 := by omega
        rw [length, zero, spotAt_zero] at spot
        exact (Option.some.inj spot).symm
    subst code
    have spaces := forall_of_length_le_run (x := r) (b := b) (p := Lexeme.isSpace) (by omega)
    exact splits_space (List.cons_ne_nil c r) (by simpa [here] using spaces) whole
  | word => exact (inside (by simp) (by simp) (by simp)).elim
  | number => exact (inside (by simp) (by simp) (by simp)).elim
  | @line t slash again =>
    subst slash
    rw [ofLexeme_of_ne_name language _ (by simp)] at spot length
    rw [spotAt_line (Nat.succ_ne_zero _) (by simp only at length; omega)] at spot
    cases r with
    | nil => cases spot
    | cons d r =>
      rw [List.cons_append] at again
      obtain ⟨rfl, rfl⟩ := List.cons.inj again
      cases spot
      simp only [List.length_cons] at reaching
      have through := forall_of_length_le_run (x := r) (b := b) (p := (· != '\n')) (by omega)
      exact splits_line (fun feed => by simpa using through _ feed) whole
  | @block t k slash star ends =>
    subst slash
    have beyond : r.length < 1 + k := reaching.resolve_right fun equal => by simp at equal
    rw [ofLexeme_of_ne_name language _ (by simp)] at spot length
    rw [spotAt_block (Nat.succ_ne_zero _) (by simp only at length; omega)] at spot
    cases r with
    | nil => cases spot
    | cons d r =>
      rw [List.cons_append] at star
      obtain ⟨rfl, rfl⟩ := List.cons.inj star
      simp only [List.length_cons, Nat.reduceEqDiff, if_false, Spot.mode?] at spot
      split at spot
      · next left =>
        cases spot
        simp only [List.length_cons] at length left
        exact splits_block ends (by omega) whole
      · cases spot
  | string literal ends =>
    exact (inside (by rintro rfl; cases literal) (by rintro rfl; cases literal)
      (by rintro rfl; cases literal)).elim
  | symbol found =>
    obtain ⟨operator | punctuation, -⟩ := Lexeme.symbol?_eq_some found
    · exact (inside (by simp [operator]) (by simp [operator]) (by simp [operator])).elim
    · exact (inside (by simp [punctuation]) (by simp [punctuation]) (by simp [punctuation])).elim

theorem startsStray_of_spot (c : Char) {pieces : List Piece} {mode : Mode}
    (spot : (spotAt (joined (.stray c :: pieces)) 1).mode? = some mode) :
    startsStray pieces = false := by
  cases pieces with
  | nil => rfl
  | cons piece pieces =>
    cases piece with
    | lexeme => rfl
    | stray d =>
      obtain ⟨value, tokens, equal, notEmpty⟩ : ∃ value tokens,
          joined (.stray d :: pieces) = ⟨.error, value⟩ :: tokens ∧ value ≠ [] := by
        rcases consStray_cases d (joined pieces) with ⟨value, tokens, -, equal⟩ | ⟨-, equal⟩
        · exact ⟨d :: value, tokens, equal, List.cons_ne_nil _ _⟩
        · exact ⟨[d], _, equal, List.cons_ne_nil _ _⟩
      rw [joined, equal, spotAt_between_strays c tokens notEmpty] at spot
      cases spot

/-- Reading splits at every point that lies in code or in a comment. -/
theorem Reads.split {language : Language} {a b : Text} {mode : Mode} {pieces : List Piece}
    (reads : Reads language (a ++ b) pieces)
    (spot : (spotAt (joined pieces) a.length).mode? = some mode) :
    ∃ before rest opened, Splits language a b mode pieces before rest opened := by
  generalize source : a ++ b = t at reads
  induction reads generalizing a with
  | nil =>
    obtain ⟨rfl, rfl⟩ := List.append_eq_nil_iff.mp source
    exact splits_nil .nil spot
  | @lexeme c t kind n pieces rule later ih =>
    cases a with
    | nil =>
      obtain rfl : b = c :: t := source
      exact splits_nil (.lexeme rule later) spot
    | cons d r =>
      rw [List.cons_append] at source
      obtain ⟨rfl, rfl⟩ := List.cons.inj source
      by_cases reaching : r.length < n ∨ (r.length = n ∧ (kind = .text ∨ kind = .comment))
      · exact splits_reaching rule reaching later spot
      · -- The lexeme ends before the point, and what follows it can be split.
        obtain ⟨within, apart⟩ := not_or.mp reaching
        have bounded : n ≤ r.length := by omega
        have inner : kind = .text ∨ kind = .comment → n < r.length := fun quiet =>
          Nat.lt_of_le_of_ne bounded fun equal => apart ⟨equal.symm, quiet⟩
        have length : (ofLexeme language kind (d :: (r ++ b).take n)).value.length = n + 1 := by
          simp [List.take_append_of_le_length bounded, bounded]
        rw [List.drop_append_of_le_length bounded] at later ih
        rw [joined, List.length_cons, spotAt_lexeme_beyond (by omega) _ (by omega), length,
          Nat.add_sub_add_right, ← List.length_drop] at spot
        · obtain ⟨before, rest, opened, split⟩ := ih spot rfl
          exact splits_lexeme rule bounded inner later split
        · intro comment
          have := inner (.inr ((ofLexeme_kind_eq_iff _ (by simp) (by simp)).mp comment))
          omega
  | @stray c t pieces noRule closed later ih =>
    cases a with
    | nil =>
      obtain rfl : b = c :: t := source
      exact splits_nil (.stray noRule closed later) spot
    | cons d r =>
      rw [List.cons_append] at source
      obtain ⟨rfl, rfl⟩ := List.cons.inj source
      by_cases first : r = []
      · subst first
        have apart := startsStray_of_spot d spot
        rw [joined, List.length_singleton, consStray_of_head (joined_head apart),
          spotAt_lexeme_beyond (Nat.le_refl 1) (by simp) (by simp)] at spot
        obtain rfl : mode = .code := by
          rw [List.length_singleton, spotAt_zero] at spot
          exact (Option.some.inj spot).symm
        have here : Splits language [] b .code pieces [] pieces [] :=
          ⟨.done, later, .refl _, trivial, by simp⟩
        exact splits_stray noRule closed later here apart
      · have beyond : r.length ≠ 0 := by simpa using first
        rw [joined, List.length_cons, spotAt_consStray d _ beyond] at spot
        obtain ⟨before, rest, opened, split⟩ := ih spot rfl
        exact splits_stray noRule closed later split
          (apart_stray_cons d rest (split.passes.pieces_ne_nil first) split.apart)

end Token

end KeyGloss
