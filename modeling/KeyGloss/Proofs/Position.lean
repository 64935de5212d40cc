import KeyGloss.Proofs.ReferenceLiterals

/-!
# Positions in a text

A position is put together from the tokens on either side of a place: the line feeds before it are counted,
and its line is what follows the last of them, up to the next one (`lineRest_eq`). The text alone gives the
same line, column and line text, however the tokens lie across its lines (`line_of_append`). So the report
of a literal points at the quote that opens it.
-/

namespace KeyGloss

open Lexeme (QuoteMark)

namespace Text

/-- How many characters stand before a line, counted from zero: the lines before it, each with its line
feed. -/
def lineStart (t : Text) (line : Nat) : Nat :=
  (((t.splitOn '\n').take line).flatMap (· ++ ['\n'])).length

/-- The first line of a text ends at its first line feed. -/
theorem splitOn_eq_cons (t : Text) :
    ∃ rest, t.splitOn '\n' = t.takeWhile (· != '\n') :: rest := by
  induction t with
  | nil => exact ⟨[], rfl⟩
  | cons c t ih =>
    obtain ⟨rest, equal⟩ := ih
    rw [List.splitOn_cons_eq_if_modifyHead, equal]
    by_cases feed : c = '\n'
    · subst feed
      exact ⟨t.takeWhile (· != '\n') :: rest, by simp⟩
    · exact ⟨rest, by simp [feed]⟩

theorem length_splitOn (t : Text) : (t.splitOn '\n').length = lineFeeds t + 1 := by
  induction t with
  | nil => rfl
  | cons c t ih =>
    rw [List.splitOn_cons_eq_if_modifyHead, lineFeeds, List.count_cons]
    rw [lineFeeds] at ih
    split <;> simp [ih]

/-- Lines with their line feeds are the text with one more. -/
theorem flatMap_splitOn (t : Text) : (t.splitOn '\n').flatMap (· ++ ['\n']) = t ++ ['\n'] := by
  induction t with
  | nil => rfl
  | cons c t ih =>
    obtain ⟨first, rest, equal⟩ := List.exists_cons_of_ne_nil (List.splitOn_ne_nil '\n' t)
    rw [equal, List.flatMap_cons] at ih
    rw [List.splitOn_cons_eq_if_modifyHead, equal]
    by_cases feed : c = '\n'
    · subst feed
      simp only [beq_self_eq_true, if_true, List.flatMap_cons, ih]
      simp
    · rw [if_neg (by simpa using feed), List.modifyHead_cons, List.flatMap_cons, List.cons_append,
        List.cons_append, ih, List.cons_append]

/-- The line in which two texts meet: it starts behind the last line feed of the first one and ends at the
first line feed of the second one. -/
theorem line_of_append (before after : Text) :
    ((before ++ after).splitOn '\n')[lineFeeds before]? =
        some (afterLast '\n' before ++ after.takeWhile (· != '\n')) ∧
      lineStart (before ++ after) (lineFeeds before) + (afterLast '\n' before).length =
        before.length := by
  have first {head : Text} (single : '\n' ∉ head) :
      ∃ rest, (head ++ after).splitOn '\n' = (head ++ after.takeWhile (· != '\n')) :: rest := by
    obtain ⟨rest, equal⟩ := splitOn_eq_cons (head ++ after)
    rw [List.takeWhile_append_of_pos (inside_line single)] at equal
    exact ⟨rest, equal⟩
  by_cases feed : '\n' ∈ before
  · obtain ⟨front, head, rfl, single⟩ := exists_last feed
    obtain ⟨rest, equal⟩ := first single
    -- The lines of the front are as many as the line feeds up to the head.
    have lines : (front ++ '\n' :: head ++ after).splitOn '\n' =
        front.splitOn '\n' ++ (head ++ after.takeWhile (· != '\n')) :: rest := by
      rw [List.append_assoc, List.cons_append, List.splitOn_append_cons_self, equal]
    have count : lineFeeds (front ++ '\n' :: head) = (front.splitOn '\n').length := by
      rw [length_splitOn, lineFeeds_append, lineFeeds, lineFeeds, List.count_cons_self,
        List.count_eq_zero.mpr single]
    rw [lineStart, lines, count, afterLast_append front single, List.take_left, flatMap_splitOn]
    refine ⟨by simp, ?_⟩
    simp only [List.length_append, List.length_cons, List.length_nil]
    omega
  · obtain ⟨rest, equal⟩ := first feed
    have noFeed : lineFeeds before = 0 := List.count_eq_zero.mpr feed
    rw [lineStart, equal, noFeed, afterLast_eq_self feed]
    simp

/-- Dropping a trailing character takes as many as there are. -/
theorem dropTrailing_split (c : Char) (t : Text) :
    (∃ count, t = dropTrailing c t ++ List.replicate count c) ∧
      (dropTrailing c t).getLast? ≠ some c := by
  have split : t.rdropWhile (· == c) ++ t.rtakeWhile (· == c) = t :=
    List.rdropWhile_append_rtakeWhile
  have same : t.rtakeWhile (· == c) = List.replicate (t.rtakeWhile (· == c)).length c :=
    List.eq_replicate_of_mem fun d member => by simpa using List.mem_rtakeWhile_imp member
  refine ⟨⟨_, same ▸ split.symm⟩, fun last => ?_⟩
  have notEmpty : t.rdropWhile (· == c) ≠ [] := by
    rintro empty
    rw [dropTrailing] at last
    rw [List.rdropWhile] at empty
    simp [empty] at last
  have other := List.rdropWhile_last_not (· == c) t notEmpty
  rw [dropTrailing, ← List.rdropWhile, List.getLast?_eq_some_getLast notEmpty] at last
  exact other (by simpa using last)

end Text

/-- What a position says of a text, when `p` characters stand before it: the line feeds among these give its
line, which is shown without the carriage returns at its end, and the characters from the start of the line
give its column. -/
structure Position.Locates (position : Position) (t : Text) (p : Nat) : Prop where
  line : position.line = 1 + Text.lineFeeds (t.take p)
  lineText : ∃ returns, (t.splitOn '\n')[position.line - 1]? =
    some (position.lineText ++ List.replicate returns '\r')
  trimmed : position.lineText.getLast? ≠ some '\r'
  column : Text.lineStart t (position.line - 1) + position.column = p + 1

/-- A position shows the character at its place, unless that character ends the line. -/
theorem Position.Locates.shows {position : Position} {before after : Text} {c : Char}
    (locates : position.Locates (before ++ c :: after) before.length) (inLine : c ≠ '\n')
    (visible : c ≠ '\r') : position.lineText[position.column - 1]? = some c := by
  obtain ⟨count, ⟨returns, shown⟩, -, start⟩ := locates
  obtain ⟨line, offset⟩ := Text.line_of_append before (c :: after)
  rw [List.take_left] at count
  have index : position.line - 1 = Text.lineFeeds before := by omega
  rw [index] at shown start
  have column : position.column - 1 = (Text.afterLast '\n' before).length := by omega
  have whole := Option.some.inj (shown.symm.trans line)
  rw [List.takeWhile_cons_of_pos (by simpa using inLine)] at whole
  -- In the untrimmed line the character is at the column, and it is none of those that were trimmed.
  have there : (position.lineText ++ List.replicate returns '\r')[position.column - 1]? = some c := by
    rw [whole, column]
    simp
  rw [List.getElem?_append] at there
  split at there
  · exact there
  · exact absurd (List.eq_of_mem_replicate (List.mem_of_getElem? there)) visible

namespace Source

/-- The rest of a line, token by token, is the rest of the line in the text. -/
theorem lineRest_eq (tokens : List Token) :
    lineRest tokens = (Token.concat tokens).takeWhile (· != '\n') := by
  induction tokens with
  | nil => rfl
  | cons token tokens ih =>
    rw [lineRest, Token.concat_cons]
    split
    · next feed =>
      obtain ⟨line, rest, equal, single⟩ := List.eq_append_cons_of_mem feed
      rw [equal, List.append_assoc, Text.takeWhile_line single fun c first => by simpa using first.symm,
        Text.takeWhile_line single fun c first => by simpa using first.symm]
    · next single => rw [List.takeWhile_append_of_pos (Text.inside_line single), ih]

theorem text_split (s : Source) (index : Nat) :
    s.text = Token.concat (s.tokens.take index) ++ Token.concat (s.tokens.drop index) := by
  rw [text, ← Token.concat_append, List.take_append_drop]

/-- The position of a token is that of the characters before it. -/
theorem locates_positionOf (s : Source) (index : Nat) :
    (s.positionOf index).Locates s.text (Token.concat (s.tokens.take index)).length := by
  obtain ⟨line, start⟩ :=
    Text.line_of_append (Token.concat (s.tokens.take index)) (Token.concat (s.tokens.drop index))
  obtain ⟨⟨returns, split⟩, trimmed⟩ := Text.dropTrailing_split '\r'
    (Text.afterLast '\n' (Token.concat (s.tokens.take index)) ++
      (Token.concat (s.tokens.drop index)).takeWhile (· != '\n'))
  rw [← text_split] at line start
  unfold positionOf
  refine ⟨?_, ⟨returns, ?_⟩, ?_, ?_⟩
  · rw [text_split s index, List.take_left, Nat.add_comm]
  · rw [lineRest_eq, ← split]
    exact line
  · rw [lineRest_eq]
    exact trimmed
  · simp only [Nat.add_sub_cancel]
    omega

/-- The position of a token shows its first character. -/
theorem positionOf_shows {s : Source} {index : Nat} {token : Token} {c : Char}
    (at_ : s.tokens[index]? = some token) (first : token.value.head? = some c) (inLine : c ≠ '\n')
    (visible : c ≠ '\r') :
    (s.positionOf index).lineText[(s.positionOf index).column - 1]? = some c := by
  have locates := locates_positionOf s index
  obtain ⟨value, spelled⟩ := List.head?_eq_some_iff.mp first
  rw [text_split s index, List.drop_eq_getElem?_toList_append, at_, Option.toList_some,
    List.singleton_append, Token.concat_cons, spelled, List.cons_append] at locates
  exact locates.shows inLine visible

end Source

namespace Referencing

/-- A report is about a literal of the source, and shows the position of it. -/
theorem exists_literal_of_report {r : Referencing} {s : Source} {diagnostic : Diagnostic}
    (reported : diagnostic ∈ (r.apply s).2.1) :
    ∃ index token issue, s.tokens[index]? = some token ∧ r.isHit token = true ∧
      diagnostic = .mismatch issue ∧ issue.key = token.content ∧
      (⟨issue.line, issue.column, issue.sourceLine⟩ : Position) = s.positionOf index := by
  have listed : diagnostic ∈ (r.refused s.tokens).map (r.reportOf s) := by
    rcases r.apply_cases s with ⟨failure, -, applied⟩ | ⟨after, outcome, applied, -⟩
    · rwa [applied] at reported
    · rwa [applied] at reported
  obtain ⟨⟨token, index⟩, refused, rfl⟩ := List.mem_map.mp listed
  obtain ⟨member, hit⟩ := List.mem_filter.mp (List.mem_filter.mp refused).1
  exact ⟨index, token, _, List.mem_zipIdx_iff_getElem?.mp member, hit, rfl, rfl, rfl⟩

end Referencing

/-- Positions agree with the text. Whatever the tokens of a source, the position of each of them, and that of
the end, is the one that the text has after the characters before it. So every report of a literal shows the
line that the literal starts in, with its first character at the column of the report unless that character
ends a line; and in a source that was read, that character is the quote which opens the literal. -/
theorem Source.positionOf_agrees (s : Source) :
    (∀ index, (s.positionOf index).Locates s.text (Token.concat (s.tokens.take index)).length) ∧
      ∀ r : Referencing, ∀ diagnostic ∈ (r.apply s).2.1, ∃ index token issue,
        s.tokens[index]? = some token ∧ r.isHit token = true ∧ diagnostic = .mismatch issue ∧
        issue.key = token.content ∧
        Position.Locates ⟨issue.line, issue.column, issue.sourceLine⟩ s.text
          (Token.concat (s.tokens.take index)).length ∧
        (∀ c, token.value.head? = some c → c ≠ '\n' → c ≠ '\r' →
          issue.sourceLine[issue.column - 1]? = some c) ∧
        ∀ path content, Source.read path content = .ok s →
          ∃ mark, QuoteMark mark ∧ token.value.head? = some mark ∧
            issue.sourceLine[issue.column - 1]? = some mark := by
  refine ⟨s.locates_positionOf, fun r diagnostic reported => ?_⟩
  obtain ⟨index, token, issue, at_, hit, same, key, position⟩ :=
    Referencing.exists_literal_of_report reported
  have shows : ∀ c, token.value.head? = some c → c ≠ '\n' → c ≠ '\r' →
      issue.sourceLine[issue.column - 1]? = some c := by
    intro c first inLine visible
    have shown := Source.positionOf_shows at_ first inLine visible
    rwa [← position] at shown
  refine ⟨index, token, issue, at_, hit, same, key, position ▸ s.locates_positionOf index, shows, ?_⟩
  intro path content read
  obtain ⟨-, lexes, -, -⟩ := Source.lexes_of_read read
  have string : token ∈ Token.strings s.tokens :=
    List.mem_filter.mpr ⟨List.mem_of_getElem? at_, (Bool.and_eq_true_iff.mp hit).1⟩
  obtain ⟨mark, rest, n, quote, rfl, -⟩ := lexes.exists_stringTail? token string
  refine ⟨mark, quote, rfl, shows mark rfl ?_ ?_⟩
  · rcases quote with rfl | rfl | rfl <;> decide
  · rcases quote with rfl | rfl | rfl <;> decide

/-- A literal behind a template of two lines, in a line that ends in a carriage return. -/
theorem Source.positionOf_agrees_behind_template :
    let s : Source :=
      { path := ("a.ts" : Text), language := .typeScript
        tokens := [⟨.stringBacktick, "\x60a\nb\x60"⟩, ⟨.text, "  "⟩, ⟨.stringSingle, "'k'"⟩,
          ⟨.text, "\r"⟩] }
    let r : Referencing :=
      { keys := KeyMap.empty.insert "k" "en" "K", importAs := "tKeys", modulePath := ("tKeys.ts" : Text) }
    Source.read ("a.ts" : Text) ("\x60a\nb\x60  'k'\r" : Text) = .ok s ∧
      s.positionOf 2 = ⟨2, 5, "b\x60  'k'"⟩ ∧ (s.positionOf 2).Locates s.text 7 ∧
      ∃ issue, .mismatch issue ∈ (r.apply s).2.1 ∧ issue.sourceLine[issue.column - 1]? = some '\'' := by
  intro s r
  have read : Source.read ("a.ts" : Text) ("\x60a\nb\x60  'k'\r" : Text) = .ok s := by decide +kernel
  obtain ⟨positions, reports⟩ := s.positionOf_agrees
  refine ⟨read, by decide +kernel, positions 2, ?_⟩
  obtain ⟨diagnostic, reported⟩ := List.exists_mem_of_ne_nil (r.apply s).2.1 (by decide +kernel)
  obtain ⟨index, token, issue, at_, hit, rfl, -, -, -, opens⟩ := reports r diagnostic reported
  obtain ⟨mark, -, first, shown⟩ := opens _ _ read
  have single : ∀ token ∈ s.tokens, r.isHit token = true → token.value.head? = some '\'' := by
    decide +kernel
  obtain rfl := Option.some.inj (first.symm.trans (single token (List.mem_of_getElem? at_) hit))
  exact ⟨issue, reported, shown⟩

end KeyGloss
