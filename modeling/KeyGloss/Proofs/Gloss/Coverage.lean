import KeyGloss.Proofs.Gloss.LineByLine
import KeyGloss.Proofs.Gloss.Refresh

/-!
# Which uses of a key are glossed

A line is glossed at its first use of a key, and what follows that use moves on, so no other use is left
before the gloss (`eq_first_of_unmarked`). A line that is due nothing has no use of a key, or its first
key has nothing to show (`silent_of_due?_eq_none`): then the uses behind that one are not glossed either.
Over the lines that a text becomes, a use is glossed exactly if no key with nothing to show is used before
it (`covered_settled`).
-/

namespace KeyGloss

namespace Text

/-- What holds no `c` at the start of a text lies before each `c` in it. -/
theorem prefix_before {plain rest front after : Text} {c : Char} (outside : c ∉ plain)
    (equal : front ++ c :: after = plain ++ rest) : plain <+: front := by
  rcases List.append_eq_append_iff.mp equal with ⟨more, rfl, behind⟩ | ⟨more, rfl, -⟩
  · cases more with
    | nil => exact ⟨[], by simp⟩
    | cons d more =>
      cases behind
      exact absurd (by simp) outside
  · exact List.prefix_append plain more

end Text

namespace Gloss

/-- A use of one of the keys on a line: the key stands between two quotes. -/
structure Uses (keys : List Text) (line : Text) (use : Use) : Prop where
  split : line = use.lead ++ use.key ++ use.after
  listed : use.key ∈ keys
  opened : ∃ before quote, isQuote quote = true ∧ use.lead = before ++ [quote]
  closed : ∃ quote after, isQuote quote = true ∧ use.after = quote :: after

/-- The line up to and with the closing quote of a use. -/
def Use.upTo (use : Use) : Text := use.lead ++ use.key ++ use.after.take 1

/-- A key has a message to show. -/
def Shown (m : KeyMap) (key : Text) : Prop :=
  ∃ values, m.get? key = some values ∧ ∃ message ∈ values, message.2 ≠ []

/-- The gloss of its key ends the line of a use. -/
def Use.Glossed (m : KeyMap) (use : Use) : Prop :=
  ∃ between gloss, glossOf? m use.key = some gloss ∧ use.after = between ++ marker ++ gloss

/-- Keys without quotes and line ends. -/
def BareKeys (keys : List Text) : Prop :=
  ∀ key ∈ keys, ∀ c ∈ key, isQuote c = false ∧ isLineEnd c = false

instance (keys : List Text) : Decidable (BareKeys keys) :=
  decidable_of_iff (keys.all fun key => key.all fun c => !isQuote c && !isLineEnd c)
    (by simp [BareKeys])

variable {m : KeyMap} {keys : List Text} {line : Text} {use first : Use} {d : Due}

theorem BareKeys.not_mem (bare : BareKeys keys) {key : Text} (listed : key ∈ keys) {quote : Char}
    (quoted : isQuote quote = true) : quote ∉ key := by
  intro member
  have plain := (bare key listed quote member).1
  rw [quoted] at plain
  cases plain

theorem BareKeys.steady (bare : BareKeys m.keys) : SteadyKeys m :=
  ⟨fun key listed c member => (bare key listed c member).2,
    fun key listed _ c member => (bare key listed c member).1⟩

/-- A key has a message to show exactly if it has a gloss. -/
theorem shown_iff {key : Text} : Shown m key ↔ ∃ gloss, glossOf? m key = some gloss := by
  constructor
  · rintro ⟨values, found, message⟩
    obtain ⟨gloss, rendered⟩ := exists_render? message
    exact ⟨gloss, Option.bind_eq_some_iff.mpr ⟨values, found, rendered⟩⟩
  · rintro ⟨gloss, rendered⟩
    obtain ⟨values, found, rendered⟩ := Option.bind_eq_some_iff.mp rendered
    refine ⟨values, found, ?_⟩
    by_contra silent
    have nothing : values.filter (fun message => !message.2.isEmpty) = [] := by
      refine List.filter_eq_nil_iff.mpr fun message listed visible => silent ⟨message, listed, ?_⟩
      simpa using visible
    simp [render?, nothing] at rendered

/-! ## The first use of a line -/

theorem uses_of_useIn (found : useIn keys line = some use) : Uses keys line use := by
  obtain ⟨split, listed, opened, closed⟩ := useIn_eq_some found
  exact ⟨split, listed, opened, closed⟩

/-- No use comes before the first one. -/
theorem exists_useIn (uses : Uses keys line use) :
    ∃ first, useIn keys line = some first ∧ first.lead.length ≤ use.lead.length := by
  obtain ⟨before, quote, quoted, lead⟩ := uses.opened
  obtain ⟨mark, after, marked, behind⟩ := uses.closed
  have text : line = before ++ quote :: (use.key ++ mark :: after) := by
    simp [uses.split, lead, behind]
  have listed := uses.listed
  rw [lead, List.length_append, List.length_singleton]
  clear uses lead behind
  induction before generalizing line with
  | nil =>
    have fit : fits use.key (use.key ++ mark :: after) = true :=
      fits_iff.mpr ⟨mark, after, marked, rfl⟩
    have isSome : (keys.find? (fits · (use.key ++ mark :: after))).isSome = true :=
      List.find?_isSome.mpr ⟨use.key, listed, fit⟩
    obtain ⟨key, found⟩ := Option.isSome_iff_exists.mp isSome
    refine ⟨⟨[quote], key, (use.key ++ mark :: after).drop key.length⟩, ?_, Nat.le_refl 1⟩
    rw [text, List.nil_append, useIn, if_pos quoted, found]
  | cons c before ih =>
    obtain ⟨later, found, shorter⟩ := ih rfl
    rw [text, List.cons_append, useIn]
    split
    · exact ⟨_, rfl, by simp⟩
    · exact ⟨_, by rw [found, Option.map_some], by simpa using shorter⟩

/-- A use that comes no earlier than another is that one, or opens behind the key of that one. -/
theorem Uses.eq_or_behind (bare : BareKeys keys) (uses : Uses keys line use)
    (other : Uses keys line first) (later : first.lead.length ≤ use.lead.length) :
    use = first ∨ ∃ between quote, isQuote quote = true ∧
      use.lead = first.lead ++ first.key ++ between ++ [quote] := by
  obtain ⟨before, quote, quoted, opened⟩ := uses.opened
  obtain ⟨mark, after, marked, closed⟩ := uses.closed
  obtain ⟨otherMark, otherAfter, otherMarked, otherClosed⟩ := other.closed
  have whole : first.lead ++ (first.key ++ first.after) = use.lead ++ (use.key ++ use.after) := by
    rw [← List.append_assoc, ← List.append_assoc, ← uses.split, ← other.split]
  obtain ⟨more, lead⟩ : first.lead <+: use.lead :=
    List.prefix_of_prefix_length_le (List.prefix_append _ _)
      (whole ▸ List.prefix_append use.lead _) later
  rw [← lead, List.append_assoc, List.append_cancel_left_eq] at whole
  rcases List.eq_nil_or_concat more with rfl | ⟨between, last, rfl⟩
  · -- Both keys end at the first quote behind the same place.
    left
    rw [List.append_nil] at lead
    rw [List.nil_append] at whole
    have shorter : first.key <+: use.key := by
      rw [closed] at whole
      exact Text.prefix_before (bare.not_mem other.listed marked) whole.symm
    have longer : use.key <+: first.key := by
      rw [otherClosed] at whole
      exact Text.prefix_before (bare.not_mem uses.listed otherMarked) whole
    have key : first.key = use.key :=
      shorter.eq_of_length (Nat.le_antisymm shorter.length_le longer.length_le)
    rw [key, List.append_cancel_left_eq] at whole
    cases use
    cases first
    simp_all
  · right
    have ends : before ++ [quote] = first.lead ++ between ++ [last] := by
      rw [← opened, ← lead]
      simp
    obtain ⟨-, same⟩ := List.append_inj' ends rfl
    cases same
    have equal : between ++ quote :: (use.key ++ use.after) = first.key ++ first.after := by
      rw [whole]
      simp
    obtain ⟨beyond, rfl⟩ := Text.prefix_before (bare.not_mem other.listed quoted) equal
    exact ⟨beyond, quote, quoted, by rw [← lead]; simp⟩

/-! ## A glossed line -/

theorem not_isQuote_closers (t : Text) : ∀ c ∈ (closers t).1, isQuote c = false := by
  intro c member
  simp only [closers, List.mem_append] at member
  rcases member with (bracket | semicolon) | gap
  · have closing := List.mem_takeWhile_imp bracket
    simp only [isClosing, Bool.or_eq_true, beq_iff_eq] at closing
    rcases closing with (rfl | rfl) | rfl <;> decide
  · rcases splitSemicolon_fst (t.dropWhile isClosing) with empty | one
    · rw [empty] at semicolon
      cases semicolon
    · rw [one] at semicolon
      obtain rfl := List.mem_singleton.mp semicolon
      decide
  · have blank := List.mem_takeWhile_imp gap
    simp only [isGap, Bool.or_eq_true, beq_iff_eq] at blank
    rcases blank with rfl | rfl <;> decide

/-- What a glossed line is behind its first key: the closing quote, no more quotes up to the marker, and
the gloss of the key. -/
theorem useIn_line (bare : BareKeys m.keys) (inline : Inline line) (due : due? m line = some d) :
    ∃ first quote quiet, useIn m.keys d.line = some first ∧
      first.after = quote :: quiet ++ marker ++ d.gloss ∧ (∀ c ∈ quiet, isQuote c = false) ∧
      glossOf? m first.key = some d.gloss := by
  have single : '\n' ∉ line := fun member => by simpa [isLineEnd] using inline _ member
  obtain ⟨body, lineEnd, use, -, returned, rfl, found, site, siteDue⟩ :=
    due?_eq_some bare.steady single due
  obtain rfl : lineEnd = [] := by
    rcases returned with empty | returns
    · exact empty
    · simpa [returns, isLineEnd] using inline '\r' (by simp [returns])
  obtain ⟨-, -, -, quote, after, quoted, closed⟩ := useIn_eq_some found
  obtain ⟨-, -, rendered, -⟩ := Site.due?_eq_some siteDue
  have quietGap : ∀ c ∈ d.gap ++ marker, isQuote c = false := fun c member => by
    simpa using d.gap_marker_all (p := (!isQuote ·)) (by decide) c member
  have again := useIn_extend d.gap d.gloss bare.steady.steady quietGap found
    (closed.trans (congrArg (quote :: ·) (closers_append_eq after).symm)) (List.cons_ne_nil _ _)
  have text : d.line =
      use.lead ++ use.key ++ (quote :: (closers after).1 ++ (d.gap ++ marker ++ d.gloss)) := by
    simp [Due.line, Due.used, site, Use.site, closed]
  refine ⟨_, quote, (closers after).1 ++ d.gap, text ▸ again, by simp, fun c member => ?_, ?_⟩
  · rcases List.mem_append.mp member with inClosers | inGap
    · exact not_isQuote_closers after c inClosers
    · exact quietGap c (List.mem_append_left _ inGap)
  · rw [site] at rendered
    exact rendered

/-- The one use on a glossed line before its marker is the first one. -/
theorem eq_first_of_unmarked {quote : Char} {quiet gloss : Text} (bare : BareKeys keys)
    (found : useIn keys line = some first) (after : first.after = quote :: quiet ++ marker ++ gloss)
    (silent : ∀ c ∈ quiet, isQuote c = false) (uses : Uses keys line use)
    (unmarked : ¬ marker <:+: use.upTo) : use = first := by
  have other := uses_of_useIn found
  obtain ⟨earliest, same, later⟩ := exists_useIn uses
  obtain rfl : first = earliest := Option.some.inj (found.symm.trans same)
  refine (uses.eq_or_behind bare other later).resolve_right ?_
  rintro ⟨between, opening, opened, lead⟩
  obtain ⟨mark, rest, marked, closed⟩ := uses.closed
  have outside : mark ∉ quiet ++ marker := by
    intro member
    rcases List.mem_append.mp member with inQuiet | inMarker
    · simp [silent mark inQuiet] at marked
    · have plain : marker.all (!isQuote ·) = true := by decide
      simpa [marked] using List.all_eq_true.mp plain mark inMarker
  -- Both uses are on one line: behind the first key stand its quote and the quiet part, and the other use
  -- closes behind all that.
  have equal : between ++ opening :: use.key ++ mark :: rest = quote :: ((quiet ++ marker) ++ gloss) := by
    have whole := other.split.symm.trans uses.split
    rw [lead, after, closed] at whole
    simpa using whole.symm
  obtain ⟨c, front, starts⟩ :=
    List.exists_cons_of_ne_nil (l := between ++ opening :: use.key) (by simp)
  rw [starts, List.cons_append] at equal
  have reached := Text.prefix_before outside (List.cons.inj equal).2
  refine unmarked ?_
  have upTo : use.upTo = first.lead ++ first.key ++ [c] ++ front ++ [mark] := by
    calc use.upTo = first.lead ++ first.key ++ (between ++ opening :: use.key) ++ [mark] := by
          simp [Use.upTo, lead, closed]
      _ = first.lead ++ first.key ++ [c] ++ front ++ [mark] := by simp [starts]
  have inside : front <:+: use.upTo := ⟨first.lead ++ first.key ++ [c], [mark], by rw [upTo]⟩
  exact ((List.suffix_append quiet marker).isInfix.trans reached.isInfix).trans inside

/-! ## A line that is due nothing -/

theorem isComment_of_lead {lead : Text} (rest : Text) (comment : isComment lead = true) :
    isComment (lead ++ rest) = true := by
  unfold isComment at comment ⊢
  rw [List.isPrefixOf_iff_prefix] at comment ⊢
  have visible : lead.trimStart ≠ [] := by
    intro empty
    rw [empty] at comment
    simp at comment
  have longer : (lead ++ rest).trimStart = lead.trimStart ++ rest := by
    simp only [Text.trimStart, List.dropWhile_append] at visible ⊢
    simp [visible]
  rw [longer]
  exact comment.trans (List.prefix_append _ rest)

/-- On a line of code without a gloss that is due nothing, the first key has nothing to show. -/
theorem silent_of_due?_eq_none (bare : BareKeys m.keys) (inline : Inline line)
    (unmarked : ¬ marker <:+: line) (code : isComment line = false) (notDue : due? m line = none)
    (found : useIn m.keys line = some first) : ¬ Shown m first.key := by
  intro shown
  obtain ⟨gloss, rendered⟩ := shown_iff.mp shown
  have other := uses_of_useIn found
  have site : firstSite? m.keys line = some (first.site []) := by
    have alone := firstSite?_append line [] [] bare.steady.inline inline ⟨.inl rfl, .inl rfl⟩
    rw [found, List.append_nil, List.append_nil] at alone
    exact alone
  have codeLead : ("//" : Text).isPrefixOf first.lead.trimStart = false := by
    rw [Bool.eq_false_iff]
    intro comment
    have whole := isComment_of_lead (first.key ++ first.after) comment
    rw [← List.append_assoc, ← other.split, code] at whole
    cases whole
  have absent : ¬ marker <:+: (first.site []).rest := by
    intro within
    obtain ⟨quote, after, -, closed⟩ := other.closed
    refine unmarked (within.trans ?_)
    refine ⟨first.lead ++ first.key ++ quote :: (closers after).1, [], ?_⟩
    rw [other.split]
    simp [Use.site, closed, closers_append_eq]
  have rest : (first.site []).splitRest = ((first.site []).rest, none) := by
    simp only [Site.splitRest, Text.breakAt?_eq_none absent]
  have lead : (first.site []).lead = first.lead := rfl
  have key : (m.get? (first.site []).key).bind render? = some gloss := rendered
  rw [due?, site, Option.bind_some, Site.due?, lead, codeLead, key, rest] at notDue
  simp at notDue

/-! ## The lines of a text -/

/-- On a line, a use before the marker of a gloss is glossed exactly if no key with nothing to show is
used before it. -/
def Covered (m : KeyMap) (line : Text) : Prop :=
  ∀ use, Uses m.keys line use → Shown m use.key → ¬ marker <:+: use.upTo →
    (use.Glossed m ↔
      ∀ earlier, Uses m.keys line earlier → earlier.lead.length < use.lead.length →
        Shown m earlier.key)

theorem covered_line (bare : BareKeys m.keys) (inline : Inline line) (due : due? m line = some d) :
    Covered m d.line := by
  intro use uses shown unmarked
  obtain ⟨first, quote, quiet, found, after, silent, rendered⟩ := useIn_line bare inline due
  obtain rfl := eq_first_of_unmarked bare found after silent uses unmarked
  refine iff_of_true ⟨quote :: quiet, d.gloss, rendered, after⟩ fun earlier other sooner => ?_
  obtain ⟨earliest, same, least⟩ := exists_useIn other
  obtain rfl : use = earliest := Option.some.inj (found.symm.trans same)
  omega

theorem covered_of_due?_eq_none (bare : BareKeys m.keys) (inline : Inline line)
    (unmarked : ¬ marker <:+: line) (code : isComment line = false) (notDue : due? m line = none) :
    Covered m line := by
  intro use uses shown _
  refine iff_of_false ?_ fun all => ?_
  · rintro ⟨between, gloss, -, after⟩
    refine unmarked ⟨use.lead ++ use.key ++ between, gloss, ?_⟩
    rw [uses.split, after]
    simp
  · obtain ⟨first, found, later⟩ := exists_useIn uses
    have other := uses_of_useIn found
    have silent := silent_of_due?_eq_none bare inline unmarked code notDue found
    rcases Nat.lt_or_eq_of_le later with sooner | same
    · exact silent (all first other sooner)
    · rcases uses.eq_or_behind bare other later with rfl | ⟨between, quote, -, lead⟩
      · exact silent shown
      · rw [lead] at same
        simp only [List.length_append, List.length_singleton] at same
        omega

/-- The lines that a line becomes. -/
theorem covered_settledLine (bare : BareKeys m.keys) (inline : Inline line)
    (unmarked : ¬ marker <:+: line) :
    ∀ l ∈ ((settledLine m line).1).splitOn '\n', isComment l = false → Covered m l := by
  have one {l : Text} (single : '\n' ∉ l) : l.splitOn '\n' = [l] := List.splitOn_eq_singleton single
  have feedless {l : Text} (inline : Inline l) : '\n' ∉ l :=
    fun member => by simpa [isLineEnd] using inline _ member
  fun_induction settledLine m line with
  | case1 line due =>
    intro l listed code
    rw [one (feedless inline), List.mem_singleton] at listed
    subst listed
    exact covered_of_due?_eq_none bare inline unmarked code due
  | case2 line d due stays =>
    intro l listed _
    rw [one (due?_single (feedless inline) due).1, List.mem_singleton] at listed
    subst listed
    exact covered_line bare inline due
  | case3 line d due next moves shorter after more equal ih =>
    obtain ⟨singleLine, -⟩ := due?_single (feedless inline) due
    have part := (splitRest_of_unmarked unmarked due).2 next moves
    have rest := ih (fun c member => inline c (part.subset member))
      fun within => unmarked (within.trans part)
    rw [equal] at rest
    intro l listed code
    rw [List.splitOn_append_cons_self, one singleLine] at listed
    rcases List.mem_append.mp listed with here | there
    · obtain rfl := List.mem_singleton.mp here
      exact covered_line bare inline due
    · exact rest l there code

/-- The lines that a text becomes. -/
theorem covered_settled (bare : BareKeys m.keys) (t : Text) (noReturn : '\r' ∉ t)
    (unmarked : ¬ marker <:+: t) :
    ∀ l ∈ (settled m t).1.splitOn '\n', isComment l = false → Covered m l := by
  have inlineOf {line : Text} (single : '\n' ∉ line) (noReturn : '\r' ∉ line) : Inline line := by
    intro c member
    have feed : c ≠ '\n' := fun equal => single (equal ▸ member)
    have returned : c ≠ '\r' := fun equal => noReturn (equal ▸ member)
    simp [isLineEnd, feed, returned]
  induction t using text_induction with
  | last line single =>
    rw [settled_line m single]
    exact covered_settledLine bare (inlineOf single noReturn) unmarked
  | more line t single ih =>
    have inLine : ¬ marker <:+: line := fun within =>
      unmarked (within.trans (List.prefix_append line ('\n' :: t)).isInfix)
    have inText : ¬ marker <:+: t := fun within =>
      unmarked (within.trans ⟨line ++ ['\n'], [], by simp⟩)
    simp only [List.mem_append, List.mem_cons, not_or] at noReturn
    intro l listed code
    rw [settled_append, settled_line m single, List.splitOn_append_cons_self] at listed
    rcases List.mem_append.mp listed with here | there
    · exact covered_settledLine bare (inlineOf single noReturn.1) inLine l here code
    · exact ih noReturn.2.2 inText l there code

/-- Which uses of a key one run glosses. Let a text hold no carriage return and no marker of a gloss, and
let the keys hold neither quotes nor line ends. On every line of the glossed text that is no comment,
every use, before the marker if the line has one, of a key that has a message to show is followed by the
marker and the gloss of that key exactly if every key that is used on that line before it has a message to
show as well. -/
theorem apply_covers (m : KeyMap) (s : Source)
    (keys : ∀ key ∈ m.keys, ∀ c ∈ key, isQuote c = false ∧ isLineEnd c = false)
    (noReturn : '\r' ∉ s.text) (unmarked : ¬ marker <:+: s.text) :
    ∀ line ∈ (apply m s).1.text.splitOn '\n', isComment line = false →
      ∀ use, Uses m.keys line use → Shown m use.key → ¬ marker <:+: use.upTo →
        ((∃ between gloss, glossOf? m use.key = some gloss ∧
            use.after = between ++ marker ++ gloss) ↔
          ∀ earlier, Uses m.keys line earlier → earlier.lead.length < use.lead.length →
            Shown m earlier.key) := by
  have bare : BareKeys m.keys := keys
  rw [(bare.steady.apply_eq_settled s).1]
  exact covered_settled bare s.text noReturn unmarked

/-- A key with nothing to show between two others: the one before it is glossed, the one behind it is
not. -/
theorem apply_covers_three_keys :
    let m : KeyMap := KeyMap.ofTriples [("a", "en", "A"), ("b", "en", "B"), ("c", "en", "")]
    let s : Source :=
      { path := ("a.ts" : Text), language := .typeScript, tokens := [⟨.text, "'a' 'c' 'b'"⟩] }
    let first : Use := ⟨"'", "a", "' // skiver: (en) A;"⟩
    let last : Use := ⟨"'c' '", "b", "'"⟩
    (apply m s).1.text = ("'a' // skiver: (en) A;\n'c' 'b'" : Text) ∧
      first.Glossed m ∧ ¬ last.Glossed m := by
  intro m s first last
  have bare : BareKeys m.keys := by decide +kernel
  have text : (apply m s).1.text = ("'a' // skiver: (en) A;\n'c' 'b'" : Text) :=
    (bare.steady.apply_eq_settled s).1.trans (by decide +kernel)
  have lines : (apply m s).1.text.splitOn '\n' =
      [("'a' // skiver: (en) A;" : Text), ("'c' 'b'" : Text)] := by
    rw [text]
    decide +kernel
  have covers := apply_covers m s bare (by decide +kernel) (by decide +kernel)
  rw [lines] at covers
  refine ⟨text, ?_, fun glossed => ?_⟩
  · have uses : Uses m.keys ("'a' // skiver: (en) A;" : Text) first :=
      ⟨rfl, by decide +kernel, ⟨[], '\'', rfl, rfl⟩, '\'', _, rfl, rfl⟩
    have shown : Shown m first.key := ⟨[("en", "A")], by decide +kernel, by decide +kernel⟩
    refine (covers _ (by simp) (by decide +kernel) first uses shown (by decide +kernel)).mpr ?_
    intro earlier other sooner
    obtain ⟨before, quote, -, lead⟩ := other.opened
    have : earlier.lead.length < 1 := sooner
    rw [lead, List.length_append, List.length_singleton] at this
    omega
  · have uses : Uses m.keys ("'c' 'b'" : Text) last :=
      ⟨rfl, by decide +kernel, ⟨"'c' ", '\'', rfl, rfl⟩, '\'', _, rfl, rfl⟩
    have shown : Shown m last.key := ⟨[("en", "B")], by decide +kernel, by decide +kernel⟩
    have silent := (covers _ (by simp) (by decide +kernel) last uses shown (by decide +kernel)).mp
      glossed ⟨"'", "c", "' 'b'"⟩
      ⟨rfl, by decide +kernel, ⟨[], '\'', rfl, rfl⟩, '\'', _, rfl, rfl⟩ (by decide +kernel)
    obtain ⟨values, found, message, listed, visible⟩ := silent
    have value : m.get? ("c" : Text) = some [(("en" : Text), ("" : Text))] := by decide +kernel
    obtain rfl := Option.some.inj (value.symm.trans found)
    obtain rfl := List.mem_singleton.mp listed
    exact visible rfl

/-- A key with nothing to show hides the keys behind it on its line: a run does not gloss every key that
has a message to show. -/
theorem apply_misses_key :
    let m : KeyMap := KeyMap.ofTriples [("a", "en", ""), ("b", "en", "B")]
    let s : Source :=
      { path := ("a.ts" : Text), language := .typeScript, tokens := [⟨.text, "'a' 'b'"⟩] }
    (∀ key ∈ m.keys, ∀ c ∈ key, isQuote c = false ∧ isLineEnd c = false) ∧ '\r' ∉ s.text ∧
      ¬ marker <:+: s.text ∧
      ¬ ∀ line ∈ (apply m s).1.text.splitOn '\n', isComment line = false →
        ∀ use, Uses m.keys line use → Shown m use.key → ¬ marker <:+: use.upTo →
          ∃ between gloss, glossOf? m use.key = some gloss ∧
            use.after = between ++ marker ++ gloss := by
  intro m s
  have bare : BareKeys m.keys := by decide +kernel
  refine ⟨bare, by decide +kernel, by decide +kernel, fun all => ?_⟩
  have lines : (apply m s).1.text.splitOn '\n' = [("'a' 'b'" : Text)] := by
    rw [(bare.steady.apply_eq_settled s).1]
    decide +kernel
  rw [lines] at all
  have uses : Uses m.keys ("'a' 'b'" : Text) ⟨"'a' '", "b", "'"⟩ :=
    ⟨rfl, by decide +kernel, ⟨"'a' ", '\'', rfl, rfl⟩, '\'', _, rfl, rfl⟩
  have shown : Shown m ("b" : Text) := ⟨[("en", "B")], by decide +kernel, by decide +kernel⟩
  obtain ⟨between, gloss, -, after⟩ :=
    all _ (by simp) (by decide +kernel) _ uses shown (by decide +kernel)
  have lengths := congrArg List.length after
  have long : marker.length = 11 := rfl
  have short : ("'" : Text).length = 1 := rfl
  simp only [List.length_append, long] at lengths
  omega

end Gloss

end KeyGloss
