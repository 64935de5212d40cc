import KeyGloss.Proofs.Dictionary
import KeyGloss.Proofs.Gloss.Settled

/-!
# Glosses that are refreshed

Glosses of older messages leave no trace. A line that was glossed once has its site where it had it
before (`firstSite?_glossed`), and behind it stand the gap that the first gloss was given and the old
gloss. So the line with the new gloss is the line that the untouched text would have got
(`settledLine_glossed`), and what moved on from it is what would have moved on as well
(`settled_settledLine`).
-/

namespace KeyGloss

namespace Text

theorem mem_flattenLines {t : Text} {c : Char} (member : c ∈ flattenLines t) : c = ' ' ∨ c ∈ t := by
  fun_induction flattenLines t <;> simp_all <;> tauto

/-- A text without the needle is not broken. -/
theorem breakAt?_eq_none {needle t : Text} (absent : ¬ needle <:+: t) : breakAt? needle t = none := by
  cases found : breakAt? needle t with
  | none => rfl
  | some parts => exact absurd ⟨parts.1, parts.2, (breakAt?_eq_some found).symm⟩ absent

end Text

namespace Gloss

/-! ## Glosses of messages -/

/-- Messages without carriage returns have a gloss that lies within the line. -/
theorem inline_render? {values : LocaleValues} {gloss : Text} (shown : render? values = some gloss)
    (noReturn : ∀ message ∈ values, '\r' ∉ message.1 ∧ '\r' ∉ message.2) : Inline gloss := by
  have noFeed := (render?_eq_some shown).1
  rcases render?_cases values with ⟨-, silent⟩ | ⟨front, whole, rendered⟩
  · simp [silent] at shown
  obtain rfl := Option.some.inj (rendered.symm.trans shown)
  have inMessages : '\r' ∉ front := by
    intro member
    have inWhole : '\r' ∈ shownMessages values := by simp [whole, member]
    obtain ⟨message, listed, inside⟩ := List.mem_flatMap.mp inWhole
    have absent := noReturn message (List.mem_filter.mp listed).1
    simp [shownMessage, absent] at inside
  have noReturn : '\r' ∉ Text.flattenLines front ++ [';'] := by
    intro member
    rcases List.mem_append.mp member with flat | last
    · rcases Text.mem_flattenLines flat with blank | kept
      · exact absurd blank (by decide)
      · exact inMessages kept
    · exact absurd last (by decide)
  intro c member
  have feed : c ≠ '\n' := fun equal => noFeed (equal ▸ member)
  have returned : c ≠ '\r' := fun equal => noReturn (equal ▸ member)
  simp [isLineEnd, feed, returned]

theorem exists_render? {values : LocaleValues} (shown : ∃ message ∈ values, message.2 ≠ []) :
    ∃ gloss, render? values = some gloss := by
  obtain ⟨message, listed, visible⟩ := shown
  rcases render?_cases values with ⟨empty, -⟩ | ⟨front, -, rendered⟩
  · have kept : message ∈ values.filter fun message => !message.2.isEmpty := by
      simp [listed, visible]
    have silent := List.flatMap_eq_nil_iff.mp empty message kept
    simp [shownMessage] at silent
  · exact ⟨_, rendered⟩

/-- The gloss of a key. -/
def glossOf? (m : KeyMap) (key : Text) : Option Text := (m.get? key).bind render?

/-! ## A glossed line that gets another gloss -/

variable {old new : KeyMap} {line gloss : Text} {d : Due}

/-- A line without the marker has no gloss to be taken out, and what moves on is a part of the line. -/
theorem splitRest_of_unmarked {m : KeyMap} (unmarked : ¬ marker <:+: line)
    (due : due? m line = some d) :
    d.site.splitRest = (d.rest, none) ∧ ∀ next, d.next? = some next → next <:+: line := by
  obtain ⟨site, found, siteDue⟩ := Option.bind_eq_some_iff.mp due
  obtain ⟨rfl, -, -, kept⟩ := Site.due?_eq_some siteDue
  obtain ⟨-, tail, split, -⟩ := firstSite?_eq_some found
  have behind : line =
      d.site.lead ++ d.site.key ++ d.site.closing ++ (d.site.rest ++ d.site.lineEnd) ++ tail := by
    simp [split, Site.text]
  have absent : ¬ marker <:+: d.site.rest := by
    intro within
    refine unmarked (within.trans ?_)
    exact (List.prefix_append _ _).isInfix.trans ⟨_, tail, behind.symm⟩
  have whole : d.site.splitRest = (d.site.rest, none) := by
    simp [Site.splitRest, Text.breakAt?_eq_none absent]
  rw [whole] at kept
  refine ⟨by rw [whole, kept], fun next moves => ?_⟩
  rw [(Due.next?_eq_some moves).1, kept]
  exact ⟨_, tail, behind.symm⟩

/-- A line without a gloss of its own is due the gloss of either map at the same site. -/
theorem due?_other (same : old.keys = new.keys) (unmarked : ¬ marker <:+: line)
    (due : due? old line = some d) (shown : glossOf? new d.site.key = some gloss) :
    due? new line = some { d with gloss } := by
  obtain ⟨site, found, siteDue⟩ := Option.bind_eq_some_iff.mp due
  obtain ⟨rfl, code, -, -⟩ := Site.due?_eq_some siteDue
  unfold glossOf? at shown
  rw [due?, ← same, found, Option.bind_some, Site.due?, code, shown,
    (splitRest_of_unmarked unmarked due).1]
  rfl

/-- The gloss that a glossed line is due for other messages. -/
def Due.renewed (d : Due) (gloss : Text) : Due := ⟨d.glossedSite, gloss, d.gap.dropWhile isGap⟩

/-- Behind a line that ends in a blank there is no gap before the gloss. -/
theorem Due.gap_of_blank {c : Char} (other : d.rest.trim ≠ [',']) (last : d.used.getLast? = some c)
    (blank : isBlank c = true) : d.gap = [] := by
  simp [Due.gap, other, last, blank]

/-- The new gloss stands where the old one stood, and nothing moves on. -/
theorem Due.renewed_line (d : Due) (gloss : Text) :
    (d.renewed gloss).line = ({ d with gloss } : Due).line ∧ (d.renewed gloss).next? = none := by
  have used : (d.renewed gloss).used = d.used ++ d.gap.takeWhile isGap := by
    simp [Due.used, renewed, glossedSite]
  have place : (d.renewed gloss).used ++ (d.renewed gloss).gap = d.used ++ d.gap ∧
      (d.renewed gloss).next? = none := by
    have rest : (d.renewed gloss).rest = d.gap.dropWhile isGap := rfl
    rcases d.gap_cases with gap | gap | gap
    · rw [gap] at used rest
      have comma : (d.renewed gloss).rest.trim = [','] := by rw [rest]; decide
      have again : (d.renewed gloss).gap = [',', ' '] := if_pos comma
      exact ⟨by simp [used, again, gap, isGap], by simp [Due.next?, comma]⟩
    · obtain ⟨c, last, blank⟩ := gap_eq_nil gap
      rw [gap] at used rest
      have empty : (d.renewed gloss).rest.trim = [] := by rw [rest]; decide
      have again : (d.renewed gloss).gap = [] :=
        gap_of_blank (by simp [empty]) (by simp [used, last]) blank
      exact ⟨by simp [used, again, gap], by simp [Due.next?, empty]⟩
    · rw [gap] at used rest
      have empty : (d.renewed gloss).rest.trim = [] := by rw [rest]; decide
      have ends : (d.renewed gloss).used = d.used ++ [' '] := used
      have again : (d.renewed gloss).gap = [] :=
        gap_of_blank (by simp [empty]) (by simp [ends]; rfl) (by decide)
      exact ⟨by simp [ends, again, gap], by simp [Due.next?, empty]⟩
  refine ⟨?_, place.2⟩
  calc (d.renewed gloss).line
      = (d.renewed gloss).used ++ (d.renewed gloss).gap ++ (marker ++ gloss) ++ d.site.lineEnd := by
        simp [Due.line, renewed, glossedSite]
    _ = d.used ++ d.gap ++ (marker ++ gloss) ++ d.site.lineEnd := by rw [place.1]
    _ = ({ d with gloss } : Due).line := by simp [Due.line, Due.used, Due.gap]

/-- A glossed line becomes with other messages what the line without a gloss becomes with them. -/
theorem settledLine_glossed (same : old.keys = new.keys) (plain : PlainKeys old)
    (single : '\n' ∉ line) (due : due? old line = some d) (inlineGloss : Inline d.gloss)
    (shown : glossOf? new d.site.key = some gloss) :
    (settledLine new d.line).1 = ({ d with gloss } : Due).line := by
  have found := firstSite?_glossed plain.steady single due inlineGloss
  obtain ⟨site, -, siteDue⟩ := Option.bind_eq_some_iff.mp due
  obtain ⟨rfl, code, rendered, -⟩ := Site.due?_eq_some siteDue
  obtain ⟨values, -, rendered⟩ := Option.bind_eq_some_iff.mp rendered
  obtain ⟨-, front, ends⟩ := render?_eq_some rendered
  have split : d.glossedSite.splitRest = (d.gap.dropWhile isGap, some d.gloss) := by
    have present := breakAt?_gap d d.gloss
    simp only [Site.splitRest, Due.glossedSite, present,
      Text.trimEnd_eq_self front ';' (by decide) ends]
  have dueAgain : due? new d.line =
      if d.gloss = gloss then none else some (d.renewed gloss) := by
    unfold glossOf? at shown
    have lead : d.glossedSite.lead = d.site.lead := rfl
    have key : d.glossedSite.key = d.site.key := rfl
    rw [due?, ← same, found, Option.bind_some, Site.due?, lead, key, code, shown, split]
    simp [Due.renewed]
  by_cases equal : d.gloss = gloss
  · rw [if_pos equal] at dueAgain
    rw [settledLine_of_none dueAgain, ← equal]
  · rw [if_neg equal] at dueAgain
    obtain ⟨line, stays⟩ := d.renewed_line gloss
    rw [settledLine_of_last dueAgain stays, line]

/-! ## Texts -/

/-- Messages that can take the place of others under the same keys. -/
structure Renews (old new : KeyMap) : Prop where
  same : old.keys = new.keys
  plain : PlainKeys old
  inline : ∀ key gloss, glossOf? old key = some gloss → Inline gloss
  shown : ∀ key ∈ new.keys, ∃ gloss, glossOf? new key = some gloss

/-- Two maps with the same plain keys, the old one without carriage returns in its messages, the new one
with a message to show for every key. -/
theorem Renews.of_messages (same : old.keys = new.keys)
    (keys : ∀ key ∈ old.keys, '\r' ∉ key ∧ '\n' ∉ key ∧ ¬ marker <:+: key)
    (noReturn : ∀ entry ∈ old.entries, ∀ message ∈ entry.2, '\r' ∉ message.1 ∧ '\r' ∉ message.2)
    (shown : ∀ entry ∈ new.entries, ∃ message ∈ entry.2, message.2 ≠ []) : Renews old new := by
  refine ⟨same, PlainKeys.of_forall keys, fun key gloss found => ?_, fun key listed => ?_⟩
  · obtain ⟨values, here, rendered⟩ := Option.bind_eq_some_iff.mp found
    exact inline_render? rendered (noReturn _ (Dictionary.mem_of_get? here))
  · obtain ⟨values, here⟩ := Dictionary.exists_get?_of_mem_keys listed
    obtain ⟨gloss, rendered⟩ := exists_render? (shown _ (Dictionary.mem_of_get? here))
    exact ⟨gloss, Option.bind_eq_some_iff.mpr ⟨values, here, rendered⟩⟩

/-- The glosses of a key that a line is due a gloss of. -/
theorem Renews.glosses (renews : Renews old new) (due : due? old line = some d) :
    ∃ gloss, Inline d.gloss ∧ glossOf? new d.site.key = some gloss := by
  obtain ⟨site, found, siteDue⟩ := Option.bind_eq_some_iff.mp due
  obtain ⟨rfl, -, rendered, -⟩ := Site.due?_eq_some siteDue
  obtain ⟨member, -⟩ := firstSite?_eq_some found
  obtain ⟨gloss, shown⟩ := renews.shown d.site.key (renews.same ▸ member)
  exact ⟨gloss, renews.inline d.site.key d.gloss rendered, shown⟩

/-- A line that was glossed becomes with other messages what the line becomes with them. -/
theorem settled_settledLine (renews : Renews old new) (single : '\n' ∉ line)
    (unmarked : ¬ marker <:+: line) :
    (settled new (settledLine old line).1).1 = (settledLine new line).1 := by
  fun_induction settledLine old line with
  | case1 line due => rw [settled_line new single]
  | case2 line d due stays =>
    obtain ⟨singleLine, -⟩ := due?_single single due
    obtain ⟨gloss, inlineGloss, shown⟩ := renews.glosses due
    rw [settled_line new singleLine,
      settledLine_glossed renews.same renews.plain single due inlineGloss shown,
      settledLine_of_last (due?_other renews.same unmarked due shown) stays]
  | case3 line d due next moves shorter after more equal ih =>
    obtain ⟨singleLine, singleNext⟩ := due?_single single due
    obtain ⟨gloss, inlineGloss, shown⟩ := renews.glosses due
    have rest := ih (singleNext next moves) fun within =>
      unmarked (within.trans ((splitRest_of_unmarked unmarked due).2 next moves))
    rw [equal] at rest
    rw [settled_append, settled_line new singleLine,
      settledLine_glossed renews.same renews.plain single due inlineGloss shown,
      settledLine_of_next (due?_other renews.same unmarked due shown) moves, rest]

/-- A text that was glossed becomes with other messages what the text becomes with them. -/
theorem settled_settled (renews : Renews old new) (t : Text) (unmarked : ¬ marker <:+: t) :
    (settled new (settled old t).1).1 = (settled new t).1 := by
  induction t using text_induction with
  | last line single =>
    rw [settled_line old single, settled_line new single]
    exact settled_settledLine renews single unmarked
  | more line t single ih =>
    have inLine : ¬ marker <:+: line := fun within =>
      unmarked (within.trans (List.prefix_append line ('\n' :: t)).isInfix)
    have inText : ¬ marker <:+: t := fun within =>
      unmarked (within.trans ⟨line ++ ['\n'], [], by simp⟩)
    rw [settled_append, settled_append, settled_append, settled_line old single,
      settled_line new single, settled_settledLine renews single inLine, ih inText]

/-- Refreshed glosses leave no trace of the old ones. Let a text hold no marker of a gloss, and let two
maps have the same keys, which hold neither a line end nor the marker. When no message or locale of the
old map holds a carriage return and every key of the new map has a message to show, the text glossed
with the old map and then with the new one is the text glossed with the new one alone. -/
theorem apply_refreshes (old new : KeyMap) (s again : Source) (same : old.keys = new.keys)
    (keys : ∀ key ∈ old.keys, '\r' ∉ key ∧ '\n' ∉ key ∧ ¬ marker <:+: key)
    (noReturn : ∀ entry ∈ old.entries, ∀ message ∈ entry.2, '\r' ∉ message.1 ∧ '\r' ∉ message.2)
    (shown : ∀ entry ∈ new.entries, ∃ message ∈ entry.2, message.2 ≠ [])
    (unmarked : ¬ marker <:+: s.text) (glossed : again.text = (apply old s).1.text) :
    (apply new again).1.text = (apply new s).1.text := by
  have renews := Renews.of_messages same keys noReturn shown
  have steady := (PlainKeys.of_forall (m := new) (same ▸ keys)).steady
  rw [(steady.apply_eq_settled again).1, (steady.apply_eq_settled s).1, glossed,
    (renews.plain.steady.apply_eq_settled s).1]
  exact settled_settled renews s.text unmarked

/-- Old messages that hold a quoted key and the marker, a key that had none, a comma, and a line end of
a carriage return and a line feed. -/
theorem apply_refreshes_marked_message :
    let old : KeyMap :=
      KeyMap.ofTriples [("a", "en", "'a' // skiver: it"), ("b", "en", ""), ("b", "no", "")]
    let new : KeyMap := KeyMap.ofTriples [("a", "en", "A"), ("b", "en", ""), ("b", "no", "B")]
    let source (t : Text) : Source :=
      { path := ("a.ts" : Text), language := .typeScript, tokens := [⟨.text, t⟩] }
    let s : Source := source "x = [ 'a',\r\nt('a') + t('b') + 1 ]"
    let glossed : Text := ("x = [ 'a', // skiver: (en) 'a' // skiver: it;\r\n" : Text) ++
      ("t('a') // skiver: (en) 'a' // skiver: it;\n+ t('b') + 1 ]" : Text)
    let refreshed : Text := ("x = [ 'a', // skiver: (en) A;\r\n" : Text) ++
      ("t('a') // skiver: (en) A;\n+ t('b') // skiver: (no) B;\n+ 1 ]" : Text)
    (apply old s).1.text = glossed ∧ (apply new s).1.text = refreshed ∧
      (apply new (source glossed)).1.text = refreshed := by
  intro old new source s glossed refreshed
  have first : (apply old s).1.text = glossed :=
    ((PlainKeys.of_forall (by decide +kernel)).steady.apply_eq_settled s).1.trans
      (by decide +kernel)
  have alone : (apply new s).1.text = refreshed :=
    ((PlainKeys.of_forall (by decide +kernel)).steady.apply_eq_settled s).1.trans
      (by decide +kernel)
  have unmarked : ¬ marker <:+: s.text := by decide +kernel
  have text : (source glossed).text = (apply old s).1.text := by
    rw [first]
    exact List.append_nil glossed
  have same := apply_refreshes old new s (source glossed) (by decide +kernel) (by decide +kernel)
    (by decide +kernel) (by decide +kernel) unmarked text
  exact ⟨first, alone, same.trans alone⟩

end Gloss

end KeyGloss
