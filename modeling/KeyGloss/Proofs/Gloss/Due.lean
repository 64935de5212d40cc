import KeyGloss.Proofs.Gloss.Site

/-!
# The gloss that a line is due

A line is due a gloss when its first site lies on code, the key has a gloss and the line does not
show it yet. A glossed line is one line, or two when the rest of the line moves on
(`Site.glossed?_eq`). For keys that hold no line end and do not reach into a gloss, the glossed
line is due nothing more (`due?_line`), and what moves on is shorter than the line it comes from
(`next_length_lt`).
-/

namespace KeyGloss

namespace Gloss

/-- A message as glosses show it. -/
def shownMessage (message : Text × Text) : Text :=
  ("(" : Text) ++ message.1 ++ (") " : Text) ++ message.2 ++ ("; " : Text)

/-- The messages of a gloss, one after the other. -/
def shownMessages (values : LocaleValues) : Text :=
  (values.filter fun message => !message.2.isEmpty).flatMap shownMessage

theorem shownMessages_eq_nil_or (values : LocaleValues) :
    shownMessages values = [] ∨ ∃ front, shownMessages values = front ++ [';', ' '] := by
  unfold shownMessages
  rcases List.eq_nil_or_concat (values.filter fun message => !message.2.isEmpty) with
    none | ⟨before, message, split⟩
  · exact .inl (by rw [none]; rfl)
  · refine .inr ⟨before.flatMap shownMessage ++
      (("(" : Text) ++ message.1 ++ (") " : Text) ++ message.2), ?_⟩
    simp [split, shownMessage]

/-- A gloss shows the messages without their last blank; there is none when there are no messages. -/
theorem render?_cases (values : LocaleValues) :
    shownMessages values = [] ∧ render? values = none ∨
      ∃ front, shownMessages values = front ++ [';', ' '] ∧
        render? values = some (Text.flattenLines front ++ [';']) := by
  have unfolded : render? values = if (shownMessages values).isEmpty then none else some
    (if (Text.flattenLines (shownMessages values)).getLast? = some ' ' then
      (Text.flattenLines (shownMessages values)).dropLast
    else Text.flattenLines (shownMessages values)) := rfl
  rcases shownMessages_eq_nil_or values with silent | ⟨front, ends⟩
  · exact .inl ⟨silent, by simp [unfolded, silent]⟩
  · have flat : Text.flattenLines (front ++ [';', ' ']) = Text.flattenLines front ++ [';', ' '] :=
      Text.flattenLines_append front [';', ' '] (by simp)
    exact .inr ⟨front, ends, by simp [unfolded, ends, flat, List.dropLast_append_of_ne_nil]⟩

/-- A gloss takes one line and ends in a semicolon. -/
theorem render?_eq_some {values : LocaleValues} {gloss : Text} (shown : render? values = some gloss) :
    '\n' ∉ gloss ∧ ∃ front, gloss = front ++ [';'] := by
  rcases render?_cases values with ⟨-, silent⟩ | ⟨front, -, rendered⟩
  · simp [silent] at shown
  · obtain rfl := Option.some.inj (rendered.symm.trans shown)
    exact ⟨by simp [Text.not_mem_flattenLines], _, rfl⟩

/-- A gloss that a line is due: where, which one, and what stays of the rest of the line. -/
structure Due where
  site : Site
  gloss : Text
  rest : Text
  deriving DecidableEq

namespace Due

/-- The line up to the rest. -/
def used (d : Due) : Text := d.site.lead ++ d.site.key ++ d.site.closing

/-- What stands between the line and its gloss. -/
def gap (d : Due) : Text :=
  if d.rest.trim = [','] then (", " : Text)
  else if (d.used.getLast?.map isBlank).getD false then []
  else (" " : Text)

/-- The line with its gloss. -/
def line (d : Due) : Text := d.used ++ (d.gap ++ marker ++ d.gloss) ++ d.site.lineEnd

/-- The line that the rest moves to, unless the rest is blank or a comma. -/
def next? (d : Due) : Option Text :=
  if d.rest.trim = [','] || d.rest.trim.isEmpty then none else some (d.rest ++ d.site.lineEnd)

/-- The line with its gloss, and the line that its rest moves to. -/
def text (d : Due) : Text :=
  match d.next? with
  | none => d.line
  | some next => d.line ++ '\n' :: next

theorem withGloss_eq_text (d : Due) : d.site.withGloss d.gloss d.rest = d.text := by
  simp only [Site.withGloss, text, next?, line, gap, used]
  by_cases moved : (d.rest.trim = [','] || d.rest.trim.isEmpty) = true
  · simp [moved]
  · simp [moved]

theorem next?_eq_none {d : Due} (stays : d.next? = none) :
    d.rest.trim = [','] ∨ d.rest.trim = [] := by
  rw [next?] at stays
  split at stays
  · next short => simpa using short
  · cases stays

theorem next?_eq_some {d : Due} {next : Text} (moves : d.next? = some next) :
    next = d.rest ++ d.site.lineEnd ∧ d.rest.trim ≠ [','] := by
  rw [next?] at moves
  split at moves
  · cases moves
  · next long =>
    cases moves
    exact ⟨rfl, fun comma => long (by simp [comma])⟩

theorem gap_cases (d : Due) : d.gap = [',', ' '] ∨ d.gap = [] ∨ d.gap = [' '] := by
  unfold gap
  split
  · exact .inl rfl
  · split
    · exact .inr (.inl rfl)
    · exact .inr (.inr rfl)

/-- Nothing keeps the gloss apart from a line that ends in a blank. -/
theorem gap_eq_nil {d : Due} (touches : d.gap = []) :
    ∃ c, d.used.getLast? = some c ∧ isBlank c = true := by
  unfold gap at touches
  split at touches
  · exact absurd touches (by decide)
  · split at touches
    · next blank =>
      cases last : d.used.getLast? with
      | none => simp [last] at blank
      | some c => exact ⟨c, rfl, by simpa [last] using blank⟩
    · exact absurd touches (by decide)

theorem gap_marker_all (d : Due) {p : Char → Bool} (holds : ([',', ' '] ++ marker).all p = true) :
    ∀ c ∈ d.gap ++ marker, p c = true := by
  have all := List.all_eq_true.mp holds
  intro c member
  rcases List.mem_append.mp member with inGap | inMarker
  · refine all c (List.mem_append_left _ ?_)
    rcases d.gap_cases with gap | gap | gap <;> simp_all
  · exact all c (List.mem_append_right _ inMarker)

end Due

/-- The gloss that the line of a site is due. -/
def Site.due? (m : KeyMap) (s : Site) : Option Due :=
  if ("//" : Text).isPrefixOf s.lead.trimStart then none
  else
    match (m.get? s.key).bind render? with
    | none => none
    | some gloss => if s.splitRest.2 = some gloss then none else some ⟨s, gloss, s.splitRest.1⟩

theorem Site.glossed?_eq (m : KeyMap) (s : Site) : s.glossed? m = (s.due? m).map Due.text := by
  simp only [Site.glossed?, Site.due?]
  split
  · rfl
  · cases (m.get? s.key).bind render? with
    | none => rfl
    | some gloss =>
      simp only [apply_ite (Option.map Due.text), Option.map_some, Option.map_none,
        ← Due.withGloss_eq_text]

theorem Site.due?_eq_some {m : KeyMap} {s : Site} {d : Due} (due : s.due? m = some d) :
    d.site = s ∧ ("//" : Text).isPrefixOf s.lead.trimStart = false ∧
      (m.get? s.key).bind render? = some d.gloss ∧ d.rest = s.splitRest.1 := by
  rw [Site.due?] at due
  split at due
  · cases due
  · next code =>
    split at due
    · cases due
    · next gloss shown =>
      split at due
      · cases due
      · cases due
        exact ⟨rfl, Bool.eq_false_iff.mpr code, shown, rfl⟩

theorem Site.splitRest_isPrefix (s : Site) : s.splitRest.1 <+: s.rest := by
  unfold Site.splitRest
  split
  · next before after found =>
    exact ⟨marker ++ after, by simp [Text.breakAt?_eq_some found]⟩
  · exact List.prefix_rfl

/-- The gloss that a line is due. -/
def due? (m : KeyMap) (line : Text) : Option Due := (firstSite? m.keys line).bind (·.due? m)

/-- What moves on from a line is shorter than the line. -/
theorem next_length_lt {m : KeyMap} {line next : Text} {d : Due} (due : due? m line = some d)
    (moves : d.next? = some next) : next.length < line.length := by
  obtain ⟨site, found, due⟩ := Option.bind_eq_some_iff.mp due
  obtain ⟨rfl, -, -, kept⟩ := Site.due?_eq_some due
  obtain ⟨-, tail, rfl, behind⟩ := firstSite?_eq_some found
  have shorter := d.site.splitRest_isPrefix.length_le
  have closing := List.length_pos_iff.mpr behind.closed
  obtain rfl : d.rest ++ d.site.lineEnd = next := by
    rw [Due.next?] at moves
    split at moves
    · cases moves
    · exact Option.some.inj moves
  simp only [Site.text, List.length_append, kept]
  omega

/-- Keys that neither break a line nor reach into a gloss. -/
structure SteadyKeys (m : KeyMap) : Prop where
  inline : ∀ key ∈ m.keys, Inline key
  steady : ∀ key ∈ m.keys, Steady key

/-- Keys that neither break a line nor look like a gloss. -/
structure PlainKeys (m : KeyMap) : Prop where
  inline : ∀ key ∈ m.keys, Inline key
  unmarked : ∀ key ∈ m.keys, ¬ marker <:+: key

theorem PlainKeys.of_forall {m : KeyMap}
    (keys : ∀ key ∈ m.keys, '\r' ∉ key ∧ '\n' ∉ key ∧ ¬ marker <:+: key) : PlainKeys m := by
  refine ⟨fun key member c inside => ?_, fun key member => (keys key member).2.2⟩
  obtain ⟨noReturn, noFeed, -⟩ := keys key member
  have returned : c ≠ '\r' := fun equal => noReturn (equal ▸ inside)
  have feed : c ≠ '\n' := fun equal => noFeed (equal ▸ inside)
  simp [isLineEnd, returned, feed]

theorem PlainKeys.steady {m : KeyMap} (plain : PlainKeys m) : SteadyKeys m :=
  ⟨plain.inline, fun key member marked => absurd marked (plain.unmarked key member)⟩

/-- A line without line feeds ends in at most one carriage return, or holds one inside. -/
theorem line_cases (line : Text) (single : '\n' ∉ line) :
    (∃ body lineEnd, Inline body ∧ (lineEnd = [] ∨ lineEnd = ['\r']) ∧ line = body ++ lineEnd) ∨
      ∃ body c r, Inline body ∧ c ≠ '\n' ∧ line = body ++ '\r' :: c :: r := by
  have whole := List.takeWhile_append_dropWhile (p := (!isLineEnd ·)) (l := line)
  have inline : Inline (line.takeWhile (!isLineEnd ·)) := fun c member => by
    simpa using List.mem_takeWhile_imp member
  cases behind : line.dropWhile (!isLineEnd ·) with
  | nil => exact .inl ⟨_, [], inline, .inl rfl, by rw [← behind, whole]⟩
  | cons c r =>
    have ends : isLineEnd c = true := by
      have := List.head?_dropWhile_not (!isLineEnd ·) line
      simpa [behind] using this
    have member : ∀ d ∈ c :: r, d ≠ '\n' := by
      rintro d member rfl
      exact single (whole ▸ List.mem_append_right _ (behind ▸ member))
    obtain rfl : c = '\r' := by
      simpa [isLineEnd, member c (by simp)] using ends
    cases r with
    | nil => exact .inl ⟨_, ['\r'], inline, .inr rfl, by rw [← behind, whole]⟩
    | cons d r => exact .inr ⟨_, d, r, inline, member d (by simp), by rw [← behind, whole]⟩

theorem firstSite?_line {keys : List Text} (line tail : Text) (inline : ∀ key ∈ keys, Inline key)
    (single : '\n' ∉ line) (ends : tail = [] ∨ ∃ next, tail = '\n' :: next) :
    firstSite? keys (line ++ tail) = firstSite? keys line := by
  rcases line_cases line single with
    ⟨body, lineEnd, inside, returned, rfl⟩ | ⟨body, c, r, inside, inner, rfl⟩
  · have alone := firstSite?_append body lineEnd [] inline inside ⟨returned, .inl rfl⟩
    rw [List.append_assoc, firstSite?_append body lineEnd tail inline inside ⟨returned, ends⟩,
      ← alone, List.append_nil]
  · rw [List.append_assoc, List.cons_append, List.cons_append,
      firstSite?_of_inner_return body _ c inline inside inner,
      firstSite?_of_inner_return body r c inline inside inner]

/-- The site of a line is the whole line. -/
theorem firstSite?_line_text {keys : List Text} {line : Text} {site : Site} (single : '\n' ∉ line)
    (found : firstSite? keys line = some site) : line = site.text := by
  obtain ⟨-, tail, split, behind⟩ := firstSite?_eq_some found
  rcases behind.ends.tail with rfl | ⟨next, rfl⟩
  · simpa using split
  · exact absurd (by simp [split]) single

/-- The marker of a gloss behind a gap is the first one there. -/
theorem breakAt?_gap (d : Due) (gloss : Text) :
    Text.breakAt? marker (d.gap.dropWhile isGap ++ (marker ++ gloss)) =
      some (d.gap.dropWhile isGap, gloss) := by
  have found := Text.breakAt?_self marker gloss marker_ne_nil
  rcases d.gap_cases with gap | gap | gap
  · have comma : marker.isPrefixOf? (',' :: ' ' :: (marker ++ gloss)) = none := rfl
    have blank : marker.isPrefixOf? (' ' :: (marker ++ gloss)) = none := rfl
    have kept : [',', ' '].dropWhile isGap = [',', ' '] := rfl
    simp [gap, kept, Text.breakAt?, comma, blank, found]
  all_goals
    have blank : d.gap.dropWhile isGap = [] := by
      rw [gap]
      rfl
    rw [blank, List.nil_append, found]

/-- A site that shows the gloss of its key is due nothing. -/
theorem Site.due?_of_shown {m : KeyMap} {s : Site} {before gloss : Text}
    (shown : (m.get? s.key).bind render? = some gloss)
    (found : Text.breakAt? marker s.rest = some (before, gloss)) : s.due? m = none := by
  obtain ⟨values, -, rendered⟩ := Option.bind_eq_some_iff.mp shown
  obtain ⟨-, front, ends⟩ := render?_eq_some rendered
  have present : s.splitRest.2 = some gloss := by
    simp [Site.splitRest, found, Text.trimEnd_eq_self front ';' (by decide) ends]
  simp [Site.due?, shown, present]

/-- A line that is due a gloss has its first use of a key in its body. -/
theorem due?_eq_some {m : KeyMap} {line : Text} {d : Due} (steady : SteadyKeys m)
    (single : '\n' ∉ line) (due : due? m line = some d) :
    ∃ body lineEnd use, Inline body ∧ (lineEnd = [] ∨ lineEnd = ['\r']) ∧ line = body ++ lineEnd ∧
      useIn m.keys body = some use ∧ d.site = use.site lineEnd ∧ d.site.due? m = some d := by
  obtain ⟨site, found, siteDue⟩ := Option.bind_eq_some_iff.mp due
  obtain ⟨rfl, -⟩ := Site.due?_eq_some siteDue
  rcases line_cases line single with
    ⟨body, lineEnd, inside, returned, rfl⟩ | ⟨body, c, r, inside, inner, rfl⟩
  · have alone := firstSite?_append body lineEnd [] steady.inline inside ⟨returned, .inl rfl⟩
    rw [List.append_nil, found] at alone
    obtain ⟨use, first, equal⟩ := Option.map_eq_some_iff.mp alone.symm
    exact ⟨body, lineEnd, use, inside, returned, rfl, first, equal.symm, siteDue⟩
  · rw [firstSite?_of_inner_return body r c steady.inline inside inner] at found
    cases found

/-- The line up to the gloss lies within one line. -/
theorem inline_used {m : KeyMap} {line : Text} {d : Due} (steady : SteadyKeys m)
    (single : '\n' ∉ line) (due : due? m line = some d) :
    Inline d.used ∧ Inline (d.gap ++ marker) := by
  obtain ⟨body, lineEnd, use, inline, -, -, first, site, -⟩ := due?_eq_some steady single due
  obtain ⟨split, -, -, quote, after, -, closed⟩ := useIn_eq_some first
  have whole : body = d.used ++ (closers after).2 := by
    simp [split, closed, Due.used, site, Use.site, closers_append_eq]
  refine ⟨(whole ▸ inline).of_append.1, fun c member => ?_⟩
  simpa using d.gap_marker_all (p := (!isLineEnd ·)) (by decide) c member

/-- The site of a glossed line. A blank before the gloss belongs to what closes the literal. -/
def Due.glossedSite (d : Due) : Site :=
  { d.site with
    closing := d.site.closing ++ d.gap.takeWhile isGap
    rest := d.gap.dropWhile isGap ++ (marker ++ d.gloss) }

/-- A glossed line has its first site where it was glossed. -/
theorem firstSite?_glossed {m : KeyMap} {line : Text} {d : Due} (steady : SteadyKeys m)
    (single : '\n' ∉ line) (due : due? m line = some d) (inlineGloss : Inline d.gloss) :
    firstSite? m.keys d.line = some d.glossedSite := by
  obtain ⟨body, lineEnd, use, inline, returned, rfl, first, site, -⟩ :=
    due?_eq_some steady single due
  obtain ⟨inlineUsed, inlineGap⟩ := inline_used steady single due
  obtain ⟨-, -, -, quote, after, -, closed⟩ := useIn_eq_some first
  have quiet : ∀ c ∈ d.gap ++ marker, isQuote c = false := fun c member => by
    simpa using d.gap_marker_all (p := (!isQuote ·)) (by decide) c member
  have stop : ∀ c ∈ (d.gap ++ marker ++ d.gloss).head?, isClosing c = false ∧ c ≠ ';' := by
    rcases d.gap_cases with gap | gap | gap <;> (rw [gap]; rintro _ ⟨⟩; decide)
  have used : d.used = use.lead ++ use.key ++ quote :: (closers after).1 := by
    simp [Due.used, site, Use.site, closed]
  have again := useIn_extend d.gap d.gloss steady.steady quiet first
    (closed.trans (congrArg (quote :: ·) (closers_append_eq after).symm)) (List.cons_ne_nil _ _)
  rw [← List.append_assoc, ← used] at again
  have found := firstSite?_append _ lineEnd [] steady.inline
    (inlineUsed.append (inlineGap.append inlineGloss)) ⟨returned, .inl rfl⟩
  have text : d.line = d.used ++ (d.gap ++ marker ++ d.gloss) ++ (lineEnd ++ []) := by
    simp [Due.line, site, Use.site]
  have gapEnds : ∀ c ∈ (marker ++ d.gloss).head?, isGap c = false := by rintro _ ⟨⟩; decide
  rw [text, found, again, Option.map_some, Due.glossedSite, site]
  simp only [Use.site, closed, List.cons_append, List.drop_succ_cons, List.drop_zero,
    List.take_succ_cons, List.take_zero, List.nil_append, closers_closers after _ stop]
  rw [List.append_assoc, Text.takeWhile_append_stop _ _ gapEnds,
    Text.dropWhile_append_stop _ _ gapEnds]

/-- A gloss lies within the line, or puts a carriage return inside it. -/
theorem inline_or_inner_return {front gloss : Text} (oneLine : '\n' ∉ gloss)
    (ends : gloss = front ++ [';']) :
    Inline gloss ∨ ∃ body c r, Inline body ∧ c ≠ '\n' ∧ gloss = body ++ '\r' :: c :: r := by
  rcases line_cases gloss oneLine with ⟨body, lineEnd, inside, rfl | rfl, equal⟩ | inner
  · rw [List.append_nil] at equal
    exact .inl (equal ▸ inside)
  · have last := congrArg List.getLast? (ends.symm.trans equal)
    simp at last
  · exact .inr inner

/-- A glossed line is due nothing. -/
theorem due?_line {m : KeyMap} {line : Text} {d : Due} (steady : SteadyKeys m)
    (single : '\n' ∉ line) (due : due? m line = some d) : due? m d.line = none := by
  obtain ⟨site, -, siteDue⟩ := Option.bind_eq_some_iff.mp due
  obtain ⟨rfl, -, shown, -⟩ := Site.due?_eq_some siteDue
  obtain ⟨values, -, rendered⟩ := Option.bind_eq_some_iff.mp shown
  obtain ⟨oneLine, front, ends⟩ := render?_eq_some rendered
  rcases inline_or_inner_return oneLine ends with inlineGloss | ⟨head, c, r, inside, inner, equal⟩
  · rw [due?, firstSite?_glossed steady single due inlineGloss]
    exact Site.due?_of_shown shown (breakAt?_gap d d.gloss)
  · obtain ⟨inlineUsed, inlineGap⟩ := inline_used steady single due
    have noSite := firstSite?_of_inner_return _ (r ++ d.site.lineEnd) c steady.inline
      (inlineUsed.append (inlineGap.append inside)) inner
    have same : d.line =
        d.used ++ (d.gap ++ marker ++ head) ++ '\r' :: c :: (r ++ d.site.lineEnd) := by
      simp [Due.line, equal]
    rw [due?, same, noSite]
    rfl

end Gloss

end KeyGloss
