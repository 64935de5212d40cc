import KeyGloss.Proofs.Token.Lexes

/-!
# Pieces of a source

Before strays are joined, a source is cut into pieces: lexemes and single strays. Reading a source
piece by piece and joining the strays is what the lexer does (`lexes_iff_reads`). Pieces that mean
nothing to the program may be split, merged or exchanged for others without a change to the tokens
that do (`Alike`), as they only keep the strays on either side apart.
-/

namespace KeyGloss

namespace Token

/-- A lexeme, which is never an error, or a character that no rule accepts. -/
inductive Piece where
  | lexeme (token : Token) (known : token.kind ≠ .error)
  | stray (c : Char)

/-- The tokens of pieces: strays that touch are one token. -/
def joined : List Piece → List Token
  | [] => []
  | .lexeme token _ :: pieces => token :: joined pieces
  | .stray c :: pieces => consStray c (joined pieces)

/-- How the lexical rules cut a source into pieces. -/
inductive Reads (language : Language) : Text → List Piece → Prop
  | nil : Reads language [] []
  | lexeme {c : Char} {r : Text} {kind : TokenKind} {n : Nat} {pieces : List Piece}
      (rule : Lexeme.scan c r = some (kind, n)) (rest : Reads language (r.drop n) pieces) :
      Reads language (c :: r) (.lexeme (ofLexeme language kind (c :: r.take n))
        (ofLexeme_kind_ne_error language _ (scan_kind_ne_error rule)) :: pieces)
  | stray {c : Char} {r : Text} {pieces : List Piece} (noRule : Lexeme.scan c r = none)
      (closed : c ≠ '\x60') (rest : Reads language r pieces) :
      Reads language (c :: r) (.stray c :: pieces)

theorem lexes_iff_reads {language : Language} {source : Text} {tokens : List Token} :
    Lexes language source tokens ↔ ∃ pieces, Reads language source pieces ∧ joined pieces = tokens := by
  constructor
  · intro lexes
    induction lexes with
    | nil => exact ⟨[], .nil, rfl⟩
    | lexeme rule _ ih =>
      obtain ⟨pieces, reads, rfl⟩ := ih
      exact ⟨_, .lexeme rule reads, rfl⟩
    | stray noRule closed _ ih =>
      obtain ⟨pieces, reads, rfl⟩ := ih
      exact ⟨_, .stray noRule closed reads, rfl⟩
  · rintro ⟨pieces, reads, rfl⟩
    induction reads with
    | nil => exact .nil
    | lexeme rule _ ih => exact .lexeme rule ih
    | stray noRule closed _ ih => exact .stray noRule closed ih

theorem Reads.concat_joined {language : Language} {source : Text} {pieces : List Piece}
    (reads : Reads language source pieces) : concat (joined pieces) = source :=
  (lexes_iff_reads.mpr ⟨pieces, reads, rfl⟩).concat_eq

/-- Whether a list of pieces starts with a stray. -/
def startsStray : List Piece → Bool
  | .stray _ :: _ => true
  | _ => false

/-- Two lists of pieces between which no strays touch. -/
def Apart : List Piece → List Piece → Prop
  | [], _ => True
  | .lexeme _ _ :: first, second => Apart first second
  | [.stray _], second => startsStray second = false
  | .stray _ :: piece :: first, second => Apart (piece :: first) second

theorem joined_head {pieces : List Piece} (apart : startsStray pieces = false) :
    ∀ token ∈ (joined pieces).head?, token.kind ≠ .error := by
  cases pieces with
  | nil => simp [joined]
  | cons piece pieces =>
    cases piece with
    | lexeme token known =>
      rintro _ ⟨⟩
      exact known
    | stray c => cases apart

theorem consStray_of_head {c : Char} {tokens : List Token}
    (other : ∀ token ∈ tokens.head?, token.kind ≠ .error) :
    consStray c tokens = ⟨.error, [c]⟩ :: tokens := by
  rcases consStray_cases c tokens with ⟨value, rest, rfl, -⟩ | ⟨-, equal⟩
  · exact absurd rfl (other _ rfl)
  · exact equal

theorem consStray_append (c : Char) {tokens : List Token} (more : List Token) (notEmpty : tokens ≠ []) :
    consStray c (tokens ++ more) = consStray c tokens ++ more := by
  rcases consStray_cases c tokens with ⟨value, rest, rfl, equal⟩ | ⟨other, equal⟩
  · rw [equal]
    rfl
  · rw [equal, consStray_of_head]
    · rfl
    · rwa [List.head?_append_of_ne_nil _ notEmpty]

theorem joined_ne_nil (piece : Piece) (pieces : List Piece) : joined (piece :: pieces) ≠ [] := by
  cases piece with
  | lexeme token known => simp [joined]
  | stray c =>
    rcases consStray_cases c (joined pieces) with ⟨value, rest, -, equal⟩ | ⟨-, equal⟩ <;>
      simp [joined, equal]

theorem apart_of_not_stray (first : List Piece) {second : List Piece}
    (other : startsStray second = false) : Apart first second := by
  fun_induction Apart first second with
  | case1 => trivial
  | case2 _ _ _ _ ih => exact ih other
  | case3 => exact other
  | case4 _ _ _ _ ih => exact ih other

theorem joined_append {first second : List Piece} (apart : Apart first second) :
    joined (first ++ second) = joined first ++ joined second := by
  fun_induction Apart first second with
  | case1 => rfl
  | case2 token known first second ih => simp [joined, ih apart]
  | case3 c second =>
    rw [List.singleton_append, joined, consStray_of_head (joined_head apart)]
    rfl
  | case4 c piece first second ih =>
    rw [List.cons_append, joined, ih apart, consStray_append c _ (joined_ne_nil piece first), joined]

/-- The tokens that mean something to the program. -/
def significant (tokens : List Token) : List Token := tokens.filter (·.kind.isSignificant)

/-- Pieces that are the same to the program, whatever stands before them. -/
def Alike (first second : List Piece) : Prop :=
  ∀ before, significant (joined (before ++ first)) = significant (joined (before ++ second))

theorem Alike.refl (pieces : List Piece) : Alike pieces pieces := fun _ => rfl

theorem Alike.cons {first second : List Piece} (piece : Piece) (alike : Alike first second) :
    Alike (piece :: first) (piece :: second) := by
  intro before
  have := alike (before ++ [piece])
  simpa using this

theorem significant_append (first second : List Token) :
    significant (first ++ second) = significant first ++ significant second :=
  List.filter_append ..

/-- A lexeme without meaning, such as white space or a comment. -/
def Piece.Blank : Piece → Prop
  | .lexeme token _ => token.kind.isSignificant = false
  | .stray _ => False

/-- A lexeme without meaning only keeps apart what stands before and behind it. -/
theorem significant_joined_blank {blank : Piece} (before after : List Piece) (quiet : blank.Blank) :
    significant (joined (before ++ blank :: after)) =
      significant (joined before) ++ significant (joined after) := by
  cases blank with
  | stray c => exact quiet.elim
  | lexeme token known =>
    have insignificant : token.kind.isSignificant = false := quiet
    rw [joined_append (apart_of_not_stray before rfl), significant_append]
    simp [joined, significant, insignificant]

theorem alike_blank {first second : Piece} (after : List Piece) (quiet : first.Blank)
    (other : second.Blank) : Alike (first :: after) (second :: after) := by
  intro before
  rw [significant_joined_blank before after quiet, significant_joined_blank before after other]

theorem alike_blank_blank {first second third : Piece} (after : List Piece) (quiet : first.Blank)
    (other : second.Blank) (more : third.Blank) :
    Alike (first :: after) (second :: third :: after) := by
  intro before
  have rest := significant_joined_blank [] after more
  rw [List.nil_append] at rest
  rw [significant_joined_blank before after quiet, significant_joined_blank before _ other, rest]
  rfl

end Token

end KeyGloss
