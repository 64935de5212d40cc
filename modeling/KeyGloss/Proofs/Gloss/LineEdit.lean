import KeyGloss.Proofs.Gloss.Due
import KeyGloss.Proofs.Gloss.Edit

/-!
# The edits that gloss a line

Glossing a line takes out its old gloss, if it has one (`Due.takeOut`), and then puts in the new one
(`Due.putIn`): in the place of a rest that is blank or a comma, or before a rest that moves to a line
of its own. Both edits are quiet (`Due.Cuts.takeOut_quiet`, `Due.Cuts.putIn_quiet`).
-/

namespace KeyGloss

open Text (LineEnds)
open Token (MeansFrom)

namespace Gloss

/-- A gloss means nothing. -/
theorem means_gloss {language : Language} {tokens : List Token} {shown lineEnd t : Text}
    (single : '\n' ∉ shown ++ lineEnd) (ends : LineEnds t) :
    MeansFrom language .code (marker ++ (shown ++ (lineEnd ++ t))) tokens ↔
      MeansFrom language .code t tokens := by
  have slashes : marker = '/' :: '/' :: marker.drop 2 := by decide
  have comment : marker ++ (shown ++ (lineEnd ++ t)) =
      '/' :: '/' :: (marker.drop 2 ++ (shown ++ lineEnd) ++ t) := by
    rw [slashes]
    simp only [List.cons_append, List.append_assoc, List.drop_succ_cons, List.drop_zero]
  rw [comment]
  refine Token.meansFrom_comment (fun feed => ?_) ends
  rcases List.mem_append.mp feed with inMarker | feed
  · exact absurd inMarker (by decide)
  · exact single feed

namespace Due

/-- The gloss that the line has, with its marker; empty when it has none. -/
def old (d : Due) : Text := d.site.rest.drop d.rest.length

/-- Taking out the old gloss. -/
def takeOut (d : Due) (before after : Text) : Edit :=
  ⟨before ++ d.used ++ d.rest, d.old, [], d.site.lineEnd ++ after⟩

/-- Putting the new gloss in the place of a rest that does not move. -/
def stay (d : Due) (before after : Text) : Edit :=
  ⟨before ++ d.used, d.rest, d.gap ++ marker ++ d.gloss, d.site.lineEnd ++ after⟩

/-- Putting in the new gloss, with the end of a line, before a rest that moves. -/
def move (d : Due) (before after : Text) : Edit :=
  ⟨before ++ d.used, [], d.gap ++ marker ++ d.gloss ++ d.site.lineEnd ++ ['\n'],
    d.rest ++ d.site.lineEnd ++ after⟩

/-- Putting in the new gloss. -/
def putIn (d : Due) (before after : Text) : Edit :=
  if d.next?.isSome then d.move before after else d.stay before after

/-- The edits that gloss a line between the given texts. -/
def edits (d : Due) (before after : Text) : List Edit :=
  (if d.old = [] then [] else [d.takeOut before after]) ++ [d.putIn before after]

/-- The site of a due gloss cuts a line that `after` follows. -/
structure Cuts (d : Due) (after : Text) : Prop where
  behind : Behind d.site.closing d.site.rest d.site.lineEnd after
  kept : d.rest = d.site.splitRest.1
  single : '\n' ∉ d.gloss

theorem gap_stops (d : Due) (t : Text) : Lexeme.Stops (d.gap ++ (marker ++ t)) := by
  rcases d.gap_cases with gap | gap | gap
  all_goals
    rw [gap]
    rintro _ ⟨⟩
    rfl

/-- A gloss that nothing keeps apart from the line follows a blank. -/
theorem gap_slash (d : Due) (before t : Text) (first : (d.gap ++ (marker ++ t)).head? = some '/') :
    (before ++ d.used).getLast? ≠ some '/' ∧ (before ++ d.used).getLast? ≠ some '*' := by
  rcases d.gap_cases with gap | gap | gap
  · simp [gap] at first
  · obtain ⟨c, last, blank⟩ := d.gap_eq_nil gap
    have whole : (before ++ d.used).getLast? = some c := by simp [last]
    rw [whole]
    constructor <;> rintro ⟨⟩ <;> cases blank
  · simp [gap] at first

theorem gap_spaces {d : Due} (other : d.rest.trim ≠ [',']) :
    ∀ c ∈ d.gap, Lexeme.isSpace c = true := by
  intro c member
  unfold gap at member
  rw [if_neg other] at member
  split at member
  · cases member
  · rw [List.mem_singleton.mp member]
    rfl

/-- A rest that stays means as much as the gap before the gloss. -/
theorem means_rest {language : Language} {d : Due} {t t' : Text} {tokens : List Token}
    (stays : d.next? = none)
    (spaces : ∀ c ∈ d.rest, isBlank c = true → Lexeme.isSpace c = true)
    (same : ∀ tokens, MeansFrom language .code t tokens ↔ MeansFrom language .code t' tokens) :
    MeansFrom language .code (d.rest ++ t) tokens ↔
      MeansFrom language .code (d.gap ++ t') tokens := by
  obtain ⟨front, back, split, leading, trailing⟩ := d.rest.trim_split
  have frontSpaces : ∀ c ∈ front, Lexeme.isSpace c = true := fun c member =>
    spaces c (by rw [split]; simp [member]) (leading c member)
  have backSpaces : ∀ c ∈ back, Lexeme.isSpace c = true := fun c member =>
    spaces c (by rw [split]; simp [member]) (trailing c member)
  rcases next?_eq_none stays with comma | empty
  · have gap : d.gap = [',', ' '] := by rw [Due.gap, if_pos comma]; rfl
    have one : ∀ c ∈ [' '], Lexeme.isSpace c = true := by simp [Lexeme.isSpace]
    rw [comma] at split
    rw [split, List.append_assoc, List.append_assoc, Token.meansFrom_space _ frontSpaces, gap,
      List.singleton_append, List.cons_append, Token.meansFrom_comma, Token.meansFrom_comma]
    simp only [Token.meansFrom_space _ backSpaces, Token.meansFrom_space _ one, same]
  · rw [empty, List.append_nil] at split
    rw [split, List.append_assoc, Token.meansFrom_space _ frontSpaces,
      Token.meansFrom_space _ backSpaces, same,
      Token.meansFrom_space _ (gap_spaces (by simp [empty]))]

namespace Cuts

variable {d : Due} {after : Text}

theorem lineEnds (cuts : d.Cuts after) : LineEnds after := by
  rcases cuts.behind.ends.tail with rfl | ⟨next, rfl⟩ <;> simp [LineEnds]

theorem lineEnd_spaces (cuts : d.Cuts after) : ∀ c ∈ d.site.lineEnd, Lexeme.isSpace c = true := by
  rcases cuts.behind.ends.lineEnd with empty | returns
  · simp [empty]
  · simp [returns, Lexeme.isSpace]

theorem lineEnd_single (cuts : d.Cuts after) : '\n' ∉ d.site.lineEnd := by
  rcases cuts.behind.ends.lineEnd with empty | returns
  · simp [empty]
  · simp [returns]

theorem head_isLineEnd (cuts : d.Cuts after) :
    ∀ c ∈ (d.site.lineEnd ++ after).head?, isLineEnd c = true := by
  rcases cuts.behind.ends.lineEnd with empty | returns
  · rw [empty, List.nil_append]
    exact fun c first => by simp [isLineEnd, cuts.lineEnds c first]
  · simp [returns, isLineEnd]

theorem head_ne_slash (cuts : d.Cuts after) : (d.site.lineEnd ++ after).head? ≠ some '/' := by
  intro first
  have := cuts.head_isLineEnd '/' first
  cases this

theorem rest_append_old (cuts : d.Cuts after) : d.rest ++ d.old = d.site.rest := by
  obtain ⟨more, split⟩ := d.site.splitRest_isPrefix
  rw [← cuts.kept] at split
  simp [old, ← split]

/-- The old gloss is marked as one. -/
theorem old_marked (cuts : d.Cuts after) (glossed : d.old ≠ []) : ∃ shown, d.old = marker ++ shown := by
  have split := cuts.rest_append_old
  have kept := cuts.kept
  unfold Site.splitRest at kept
  split at kept
  · next before shown found =>
    obtain rfl : d.rest = before := kept
    rw [Text.breakAt?_eq_some found, List.append_assoc] at split
    exact ⟨shown, List.append_cancel_left split⟩
  · rw [kept] at split
    exact absurd (by simpa using split) glossed

theorem rest_single (cuts : d.Cuts after) : '\n' ∉ d.site.rest := by
  intro feed
  have := cuts.behind.inline '\n' feed
  cases this

theorem kept_single (cuts : d.Cuts after) : '\n' ∉ d.rest := fun feed =>
  cuts.rest_single (cuts.rest_append_old ▸ List.mem_append_left _ feed)

theorem old_single (cuts : d.Cuts after) : '\n' ∉ d.old := fun feed =>
  cuts.rest_single (cuts.rest_append_old ▸ List.mem_append_right _ feed)

theorem stops (cuts : d.Cuts after) : Lexeme.Stops (d.site.lineEnd ++ after) := by
  intro c first
  have ends := cuts.head_isLineEnd c first
  simp only [isLineEnd, Bool.or_eq_true, beq_iff_eq] at ends
  rcases ends with rfl | rfl <;> rfl

/-- In a block comment, text before the end of the line may be exchanged for other text. -/
theorem noBlockEnd (cuts : d.Cuts after) {x : Text} (unended : Lexeme.blockTail? x = none) :
    Lexeme.NoBlockEnd x (d.site.lineEnd ++ after) :=
  ⟨unended, fun touch => cuts.head_ne_slash touch.2⟩

theorem takeOut_quiet (language : Language) (cuts : d.Cuts after) (before : Text)
    (glossed : d.old ≠ []) : (d.takeOut before after).Quiet language := by
  obtain ⟨shown, marked⟩ := cuts.old_marked glossed
  have single := cuts.old_single
  refine ⟨cuts.stops, fun first => absurd first cuts.head_ne_slash, ?_⟩
  intro mode allowed tokens means
  simp only [takeOut, List.nil_append] at allowed means ⊢
  cases mode with
  | code =>
    rw [marked, List.append_assoc] at means
    rw [marked] at single
    have inner : '\n' ∉ shown ++ d.site.lineEnd := by
      simp_all [cuts.lineEnd_single]
    rw [Token.meansFrom_space _ cuts.lineEnd_spaces]
    exact (means_gloss inner cuts.lineEnds).mp means
  | line =>
    rw [← List.append_assoc, Token.meansFrom_line _ cuts.lineEnds] at means
    · rwa [Token.meansFrom_line cuts.lineEnd_single cuts.lineEnds]
    · simp [single, cuts.lineEnd_single]
  | block => exact (Token.meansFrom_block (cuts.noBlockEnd allowed.1)).mp means

theorem gloss_single (cuts : d.Cuts after) : '\n' ∉ d.gap ++ marker ++ d.gloss := by
  have marker : '\n' ∉ marker := by decide
  rcases d.gap_cases with gap | gap | gap <;> simp [gap, marker, cuts.single]

theorem gloss_end_single (cuts : d.Cuts after) : '\n' ∉ d.gloss ++ d.site.lineEnd := by
  simp [cuts.single, cuts.lineEnd_single]

theorem stay_quiet (language : Language) (cuts : d.Cuts after) (before : Text)
    (stays : d.next? = none) : (d.stay before after).Quiet language := by
  have text : d.gap ++ marker ++ d.gloss ++ (d.site.lineEnd ++ after) =
      d.gap ++ (marker ++ (d.gloss ++ (d.site.lineEnd ++ after))) := by simp only [List.append_assoc]
  refine ⟨text ▸ d.gap_stops _, fun first => d.gap_slash before _ (text ▸ first), ?_⟩
  intro mode allowed tokens means
  simp only [stay] at allowed means ⊢
  cases mode with
  | code =>
    -- The rest is gone, and the gap before the gloss stands for it.
    have spaces := allowed.resolve_left (by simp [marker_ne_nil])
    rw [text]
    refine (means_rest stays spaces fun tokens => ?_).mp means
    rw [Token.meansFrom_space _ cuts.lineEnd_spaces, means_gloss cuts.gloss_end_single cuts.lineEnds]
  | line =>
    rw [← List.append_assoc, Token.meansFrom_line _ cuts.lineEnds] at means
    · rw [← List.append_assoc, Token.meansFrom_line _ cuts.lineEnds]
      · exact means
      · simpa [cuts.lineEnd_single] using cuts.gloss_single
    · simp [cuts.kept_single, cuts.lineEnd_single]
  | block =>
    rw [Token.meansFrom_block (cuts.noBlockEnd allowed.1)] at means
    rwa [Token.meansFrom_block (cuts.noBlockEnd allowed.2)]

theorem move_quiet (language : Language) (cuts : d.Cuts after) (before : Text)
    (moves : d.rest.trim ≠ [',']) : (d.move before after).Quiet language := by
  have text : d.gap ++ marker ++ d.gloss ++ d.site.lineEnd ++ ['\n'] ++
        (d.rest ++ d.site.lineEnd ++ after) =
      d.gap ++ (marker ++ (d.gloss ++ (d.site.lineEnd ++
        (['\n'] ++ (d.rest ++ d.site.lineEnd ++ after))))) := by
    simp only [List.append_assoc]
  refine ⟨text ▸ d.gap_stops _, fun first => d.gap_slash before _ (text ▸ first), ?_⟩
  intro mode allowed tokens means
  simp only [move, List.nil_append] at allowed means ⊢
  have feed : ∀ c ∈ ['\n'], Lexeme.isSpace c = true := by simp [Lexeme.isSpace]
  have next : LineEnds (['\n'] ++ (d.rest ++ d.site.lineEnd ++ after)) := by simp [LineEnds]
  cases mode with
  | code =>
    rw [text, Token.meansFrom_space _ (gap_spaces moves), means_gloss cuts.gloss_end_single next]
    exact (Token.meansFrom_space _ feed).mpr means
  | line =>
    have single : '\n' ∉ d.rest ++ d.site.lineEnd := by
      simp [cuts.kept_single, cuts.lineEnd_single]
    -- The comment now ends with the gloss, so what moves on is read as code.
    have blank := allowed.resolve_left (by simp)
    rw [Text.takeWhile_line single cuts.lineEnds] at blank
    rw [Token.meansFrom_line single cuts.lineEnds] at means
    rw [List.append_assoc _ ['\n'], Token.meansFrom_line _ next]
    · refine (Token.meansFrom_space _ feed).mpr ?_
      exact (Token.meansFrom_blank_line single cuts.lineEnds blank).mpr means
    · simpa [cuts.lineEnd_single] using cuts.gloss_single
  | block =>
    have quiet : Lexeme.NoBlockEnd (d.gap ++ marker ++ d.gloss ++ d.site.lineEnd ++ ['\n'])
        (d.rest ++ d.site.lineEnd ++ after) := ⟨allowed.2, by simp⟩
    exact (Token.meansFrom_block quiet).mpr means

theorem putIn_quiet (language : Language) (cuts : d.Cuts after) (before : Text) :
    (d.putIn before after).Quiet language := by
  unfold putIn
  cases moves : d.next? with
  | none => exact cuts.stay_quiet language before moves
  | some next => exact cuts.move_quiet language before (next?_eq_some moves).2

end Cuts

end Due

/-- The gloss that a line is due is due on the line that the text starts with. -/
theorem cuts_of_due? {m : KeyMap} {t : Text} {d : Due} (due : due? m t = some d) :
    ∃ after, t = d.site.text ++ after ∧ d.Cuts after := by
  obtain ⟨site, found, due⟩ := Option.bind_eq_some_iff.mp due
  obtain ⟨rfl, -, shown, kept⟩ := Site.due?_eq_some due
  obtain ⟨-, after, split, behind⟩ := firstSite?_eq_some found
  obtain ⟨values, -, rendered⟩ := Option.bind_eq_some_iff.mp shown
  exact ⟨after, split, behind, kept, (render?_eq_some rendered).1⟩

end Gloss

end KeyGloss
