import KeyGloss.Proofs.Gloss.Settled

/-!
# Glossing goes line by line

The passes of a run go over the whole text as often as its slowest line needs, and still every line is
glossed as if it stood alone: a text is glossed by glossing its lines (`annotate_append`), and a comment
line is none of those that change (`annotate_comment`).
-/

namespace KeyGloss

namespace Gloss

variable {m : KeyMap}

/-- What stands before and after a line feed is glossed separately. -/
theorem annotate_append (steady : SteadyKeys m) (a b : Text) :
    annotate m (a ++ '\n' :: b) =
      ((annotate m a).1 ++ '\n' :: (annotate m b).1, (annotate m a).2 + (annotate m b).2) := by
  simp only [steady.annotate_eq_settled, settled_append]

/-- A text is glossed by glossing its lines. -/
theorem annotate_lines (steady : SteadyKeys m) (t : Text) :
    (annotate m t).1 =
      Text.join ['\n'] ((t.splitOn '\n').map fun line => (annotate m line).1) := by
  rw [steady.annotate_eq_settled]
  refine congrArg (Text.join ['\n']) (List.map_congr_left fun line listed => ?_)
  rw [steady.annotate_eq_settled, settled_line m (Text.not_mem_of_mem_splitOn listed)]

/-- A line whose code starts with two slashes. -/
def isComment (line : Text) : Bool := ("//" : Text).isPrefixOf line.trimStart

/-- The slashes of a comment line stand before its first use of a key. -/
theorem isComment_lead {lead rest : Text} {quote : Char} (quoted : isQuote quote = true)
    (comment : isComment (lead ++ [quote] ++ rest) = true) : isComment (lead ++ [quote]) = true := by
  have visible : isBlank quote = false := by
    simp only [isQuote, Bool.or_eq_true, beq_iff_eq] at quoted
    rcases quoted with (rfl | rfl) | rfl <;> decide
  have starts : (lead ++ [quote]).trimStart = lead.trimStart ++ [quote] :=
    Text.dropWhile_append_stop lead [quote] (by simpa using visible)
  have whole : (lead ++ [quote] ++ rest).trimStart = lead.trimStart ++ [quote] ++ rest := by
    rw [List.append_assoc, List.append_assoc]
    exact Text.dropWhile_append_stop lead _ (by simpa using visible)
  unfold isComment at comment ⊢
  rw [starts]
  rw [whole] at comment
  rw [List.isPrefixOf_iff_prefix] at comment ⊢
  rcases List.prefix_or_prefix_of_prefix comment (List.prefix_append _ rest) with within | beyond
  · exact within
  · -- Otherwise the quote would be one of the slashes.
    have slash : quote ∈ ("//" : Text) := beyond.subset (by simp)
    obtain rfl : quote = '/' := by simpa using slash
    exact absurd quoted (by decide)

/-- A comment line is due nothing. -/
theorem due?_comment {line : Text} (steady : SteadyKeys m) (single : '\n' ∉ line)
    (comment : isComment line = true) : due? m line = none := by
  by_contra isDue
  obtain ⟨d, due⟩ := Option.ne_none_iff_exists'.mp isDue
  obtain ⟨body, lineEnd, use, -, -, rfl, first, site, siteDue⟩ := due?_eq_some steady single due
  obtain ⟨split, -, ⟨lead, quote, quoted, leads⟩, -⟩ := useIn_eq_some first
  obtain ⟨-, code, -, -⟩ := Site.due?_eq_some siteDue
  have whole : body ++ lineEnd = lead ++ [quote] ++ (use.key ++ (use.after ++ lineEnd)) := by
    simp [split, leads]
  rw [whole] at comment
  have inLead := isComment_lead quoted comment
  rw [← leads] at inLead
  rw [site] at code
  exact absurd (inLead.symm.trans code) (by decide)

/-- A comment line is left alone. -/
theorem annotate_comment {line : Text} (steady : SteadyKeys m) (single : '\n' ∉ line)
    (comment : isComment line = true) : annotate m line = (line, 0) := by
  rw [steady.annotate_eq_settled, settled_line m single,
    settledLine_of_none (due?_comment steady single comment)]

/-- Glossing goes line by line. For keys that hold neither a line end nor the marker of a gloss: what
stands before and after a line feed, be it that of a carriage return and line feed, is glossed
separately and the numbers of glosses add up; and in the glossed text every line whose code starts with
two slashes stands in its place as it was, while every other line is what it becomes alone. -/
theorem apply_line_by_line (m : KeyMap)
    (keys : ∀ key ∈ m.keys, '\r' ∉ key ∧ '\n' ∉ key ∧ ¬ marker <:+: key) :
    (∀ whole first second : Source, whole.text = first.text ++ '\n' :: second.text →
      (apply m whole).1.text = (apply m first).1.text ++ '\n' :: (apply m second).1.text ∧
        (apply m whole).2.replacements =
          (apply m first).2.replacements + (apply m second).2.replacements) ∧
    ∀ s : Source, (apply m s).1.text =
      Text.join ['\n'] ((s.text.splitOn '\n').map fun line =>
        if ("//" : Text).isPrefixOf line.trimStart then line else (annotate m line).1) := by
  have steady := (PlainKeys.of_forall keys).steady
  constructor
  · intro whole first second split
    obtain ⟨text, count⟩ := apply_text m whole
    rw [split, annotate_append steady] at text count
    rw [text, count, (apply_text m first).1, (apply_text m first).2, (apply_text m second).1,
      (apply_text m second).2]
    exact ⟨rfl, rfl⟩
  · intro s
    rw [(apply_text m s).1, annotate_lines steady]
    refine congrArg (Text.join ['\n']) (List.map_congr_left fun line listed => ?_)
    split
    · next comment => rw [annotate_comment steady (Text.not_mem_of_mem_splitOn listed) comment]
    · rfl

/-- A line that takes two passes, a comment line, and a line that takes one, all ended by a carriage
return and a line feed. -/
theorem apply_line_by_line_returns :
    let m : KeyMap := KeyMap.ofTriples [("k", "en", "K")]
    let source (t : Text) : Source :=
      { path := ("a.ts" : Text), language := .typeScript, tokens := [⟨.text, t⟩] }
    let first : Source := source "t('k') + t('k')\r\n // t('k')\r"
    let second : Source := source "t('k');\r\n"
    let whole : Source := source "t('k') + t('k')\r\n // t('k')\r\nt('k');\r\n"
    (apply m first).2.replacements = 2 ∧ (apply m second).2.replacements = 1 ∧
      (apply m whole).2.replacements = 3 ∧
      (apply m whole).1.text = (apply m first).1.text ++ '\n' :: (apply m second).1.text ∧
      (apply m first).1.text =
        ("t('k') // skiver: (en) K;\r\n+ t('k') // skiver: (en) K;\r\n // t('k')\r" : Text) := by
  intro m source first second whole
  have keys : ∀ key ∈ m.keys, '\r' ∉ key ∧ '\n' ∉ key ∧ ¬ marker <:+: key := by decide +kernel
  have steady := (PlainKeys.of_forall keys).steady
  obtain ⟨parts, lines⟩ := apply_line_by_line m keys
  obtain ⟨text, count⟩ := parts whole first second rfl
  have two : (apply m first).2.replacements = 2 :=
    (steady.apply_eq_settled first).2.trans (by decide +kernel)
  have one : (apply m second).2.replacements = 1 :=
    (steady.apply_eq_settled second).2.trans (by decide +kernel)
  refine ⟨two, one, by rw [count, two, one], text, ?_⟩
  rw [lines first]
  simp only [steady.annotate_eq_settled]
  decide +kernel

end Gloss

end KeyGloss
