import Mathlib.Data.List.Infix
import KeyGloss.Gloss
import KeyGloss.Proofs.Text

/-!
# Where a line is glossed

A site cuts the line that it was found on (`firstSite?_eq_some`). The body of a line is what stands
before its line end. For keys without line ends the first site of a line depends on its body alone
(`firstSite?_append`), and a line with a carriage return inside has none
(`firstSite?_of_inner_return`). The site lies at the first use of a key in the body: the first quote
behind which some key and another quote follow (`useIn`). A gloss put behind the literal leaves that
use the first, unless a key holds the marker of a gloss and a quote (`useIn_extend`).
-/

namespace KeyGloss

namespace Gloss

/-- A text that lies within one line. -/
def Inline (t : Text) : Prop := ∀ c ∈ t, isLineEnd c = false

/-- What ends a line: its carriage return, if any, and then the next line or nothing. -/
structure Ends (lineEnd tail : Text) : Prop where
  lineEnd : lineEnd = [] ∨ lineEnd = ['\r']
  tail : tail = [] ∨ ∃ next, tail = '\n' :: next

/-- A semicolon at the start of a text, and what follows it. -/
def splitSemicolon : Text → Text × Text
  | ';' :: t => ([';'], t)
  | t => ([], t)

/-- What closes a literal behind its quote, and the rest of the line. -/
def closers (t : Text) : Text × Text :=
  let (semicolon, spaced) := splitSemicolon (t.dropWhile isClosing)
  (t.takeWhile isClosing ++ semicolon ++ spaced.takeWhile isGap, spaced.dropWhile isGap)

theorem splitSemicolon_eq_take_drop (t : Text) :
    splitSemicolon t =
      (t.take (if t.head? = some ';' then 1 else 0),
        t.drop (t.take (if t.head? = some ';' then 1 else 0)).length) := by
  cases t with
  | nil => rfl
  | cons c t =>
    by_cases semicolon : c = ';'
    · subst semicolon
      rfl
    · simp [splitSemicolon, semicolon]

theorem splitSemicolon_append_eq (t : Text) : (splitSemicolon t).1 ++ (splitSemicolon t).2 = t := by
  unfold splitSemicolon
  split <;> rfl

theorem splitSemicolon_fst (t : Text) :
    (splitSemicolon t).1 = [] ∨ (splitSemicolon t).1 = [';'] := by
  unfold splitSemicolon
  split
  · exact .inr rfl
  · exact .inl rfl

theorem closers_append_eq (t : Text) : (closers t).1 ++ (closers t).2 = t := by
  simp only [closers, List.append_assoc, List.takeWhile_append_dropWhile, splitSemicolon_append_eq]

/-- What follows a key's quote, cut at the end of the line. -/
theorem afterKey?_cons (quote : Char) (t : Text) (quoted : isQuote quote = true) :
    afterKey? (quote :: t) =
      match (closers t).2.dropWhile (!isLineEnd ·) with
      | [] => some (quote :: (closers t).1, (closers t).2.takeWhile (!isLineEnd ·), [])
      | '\n' :: _ => some (quote :: (closers t).1, (closers t).2.takeWhile (!isLineEnd ·), [])
      | ['\r'] => some (quote :: (closers t).1, (closers t).2.takeWhile (!isLineEnd ·), ['\r'])
      | '\r' :: '\n' :: _ =>
        some (quote :: (closers t).1, (closers t).2.takeWhile (!isLineEnd ·), ['\r'])
      | _ => none := by
  simp only [closers, splitSemicolon_eq_take_drop]
  exact if_pos quoted

theorem afterKey?_of_not_quote (t : Text) (other : ∀ c ∈ t.head?, isQuote c = false) :
    afterKey? t = none := by
  cases t with
  | nil => rfl
  | cons c t => simp [afterKey?, other c rfl]

/-- A character that goes on with nothing that closes a literal. -/
def endsClosers (c : Char) : Bool := !isClosing c && c != ';' && !isGap c

theorem splitSemicolon_append (t x : Text) (stop : ∀ c ∈ x.head?, c ≠ ';') :
    splitSemicolon (t ++ x) = ((splitSemicolon t).1, (splitSemicolon t).2 ++ x) := by
  cases t with
  | nil =>
    cases x with
    | nil => rfl
    | cons c x => simp [splitSemicolon, stop c rfl]
  | cons c t =>
    by_cases semicolon : c = ';'
    · subst semicolon
      rfl
    · simp [splitSemicolon, semicolon]

/-- Closers end where something else starts. -/
theorem closers_append (t x : Text) (stop : ∀ c ∈ x.head?, endsClosers c = true) :
    closers (t ++ x) = ((closers t).1, (closers t).2 ++ x) := by
  have ends : ∀ c ∈ x.head?, isClosing c = false ∧ c ≠ ';' ∧ isGap c = false := by
    intro c first
    have := stop c first
    simp only [endsClosers, Bool.and_eq_true, Bool.not_eq_true', bne_iff_ne] at this
    exact ⟨this.1.1, this.1.2, this.2⟩
  have closing := fun c first => (ends c first).1
  have semicolon := fun c first => (ends c first).2.1
  have gap := fun c first => (ends c first).2.2
  simp only [closers, Text.takeWhile_append_stop t x closing,
    Text.dropWhile_append_stop t x closing, splitSemicolon_append _ x semicolon,
    Text.takeWhile_append_stop _ x gap, Text.dropWhile_append_stop _ x gap]

private theorem takeWhile_eq_nil {p : Char → Bool} (t : Text) (stop : ∀ c ∈ t.head?, p c = false) :
    t.takeWhile p = [] := by
  simpa using Text.takeWhile_append_stop [] t stop

private theorem dropWhile_eq_self {p : Char → Bool} (t : Text) (stop : ∀ c ∈ t.head?, p c = false) :
    t.dropWhile p = t := by
  simpa using Text.dropWhile_append_stop [] t stop

/-- Brackets, a semicolon and blanks are closers, and so are the blanks that come next. -/
theorem closers_parts {brackets semicolon gap : Text} (x : Text)
    (closing : ∀ c ∈ brackets, isClosing c = true)
    (one : semicolon = [] ∨ semicolon = [';']) (blank : ∀ c ∈ gap, isGap c = true)
    (stop : ∀ c ∈ x.head?, isClosing c = false ∧ c ≠ ';') :
    closers (brackets ++ semicolon ++ gap ++ x) =
      (brackets ++ semicolon ++ gap ++ x.takeWhile isGap, x.dropWhile isGap) := by
  have gapHead : ∀ c ∈ (gap ++ x).head?, isClosing c = false ∧ c ≠ ';' := by
    cases gap with
    | nil => exact stop
    | cons c gap =>
      rintro _ ⟨⟩
      have first := blank c (by simp)
      simp only [isGap, Bool.or_eq_true, beq_iff_eq] at first
      rcases first with rfl | rfl <;> decide
  have bracketsEnd : ∀ c ∈ (semicolon ++ (gap ++ x)).head?, isClosing c = false := by
    rcases one with rfl | rfl
    · exact fun c first => (gapHead c first).1
    · rintro _ ⟨⟩
      decide
  have split : splitSemicolon (semicolon ++ (gap ++ x)) = (semicolon, gap ++ x) := by
    rcases one with rfl | rfl
    · have without := splitSemicolon_append [] (gap ++ x) fun c first => (gapHead c first).2
      simpa [splitSemicolon] using without
    · rfl
  simp only [closers, List.append_assoc, List.takeWhile_append_of_pos closing,
    List.dropWhile_append_of_pos closing, takeWhile_eq_nil _ bracketsEnd,
    dropWhile_eq_self _ bracketsEnd, split, List.takeWhile_append_of_pos blank,
    List.dropWhile_append_of_pos blank, List.nil_append]

/-- Closers with something else behind them close a literal again. -/
theorem closers_closers (t x : Text) (stop : ∀ c ∈ x.head?, isClosing c = false ∧ c ≠ ';') :
    closers ((closers t).1 ++ x) = ((closers t).1 ++ x.takeWhile isGap, x.dropWhile isGap) := by
  apply closers_parts x
  · exact fun c member => List.mem_takeWhile_imp member
  · exact splitSemicolon_fst _
  · exact fun c member => List.mem_takeWhile_imp member
  · exact stop

theorem Inline.append {t u : Text} (first : Inline t) (second : Inline u) : Inline (t ++ u) := by
  intro c member
  rcases List.mem_append.mp member with member | member
  · exact first c member
  · exact second c member

theorem Inline.of_append {t u : Text} (both : Inline (t ++ u)) : Inline t ∧ Inline u :=
  ⟨fun c member => both c (List.mem_append_left u member),
    fun c member => both c (List.mem_append_right t member)⟩

/-- A line's end starts with no character of the line. -/
theorem Ends.isLineEnd_head {lineEnd tail : Text} (ends : Ends lineEnd tail) :
    ∀ c ∈ (lineEnd ++ tail).head?, isLineEnd c = true := by
  rcases ends with ⟨rfl | rfl, rfl | ⟨next, rfl⟩⟩
  · rintro _ ⟨⟩
  all_goals
    rintro _ ⟨⟩
    decide

theorem endsClosers_of_isLineEnd {c : Char} (line : isLineEnd c = true) : endsClosers c = true := by
  simp only [isLineEnd, Bool.or_eq_true, beq_iff_eq] at line
  rcases line with rfl | rfl <;> decide

theorem isQuote_of_isLineEnd {c : Char} (line : isLineEnd c = true) : isQuote c = false := by
  simp only [isLineEnd, Bool.or_eq_true, beq_iff_eq] at line
  rcases line with rfl | rfl <;> decide

theorem Inline.takeWhile {t : Text} (inline : Inline t) (x : Text)
    (stop : ∀ c ∈ x.head?, isLineEnd c = true) :
    (t ++ x).takeWhile (!isLineEnd ·) = t ∧ (t ++ x).dropWhile (!isLineEnd ·) = x := by
  have inside : ∀ c ∈ t, (!isLineEnd c) = true := fun c member => by simp [inline c member]
  have outside : ∀ c ∈ x.head?, (!isLineEnd c) = false := fun c first => by simp [stop c first]
  constructor
  · rw [List.takeWhile_append_of_pos inside, takeWhile_eq_nil x outside, List.append_nil]
  · rw [List.dropWhile_append_of_pos inside, dropWhile_eq_self x outside]

/-- Behind a key on an ordinary line: what closes the literal, the rest, the carriage return. -/
theorem afterKey?_inline (quote : Char) (t lineEnd tail : Text) (quoted : isQuote quote = true)
    (inline : Inline t) (ends : Ends lineEnd tail) :
    afterKey? (quote :: (t ++ (lineEnd ++ tail))) =
      some (quote :: (closers t).1, (closers t).2, lineEnd) := by
  have stop := ends.isLineEnd_head
  have rest : Inline (closers t).2 := by
    have whole : Inline ((closers t).1 ++ (closers t).2) := by rw [closers_append_eq]; exact inline
    exact whole.of_append.2
  obtain ⟨taken, dropped⟩ := rest.takeWhile (lineEnd ++ tail) stop
  rw [afterKey?_cons quote _ quoted,
    closers_append t _ fun c first => endsClosers_of_isLineEnd (stop c first)]
  simp only [taken, dropped]
  rcases ends with ⟨rfl | rfl, rfl | ⟨next, rfl⟩⟩ <;> rfl

/-- Behind a key on a line with a carriage return inside there is no end of the line. -/
theorem afterKey?_of_inner_return (quote c : Char) (t r : Text) (inline : Inline t)
    (inner : c ≠ '\n') : afterKey? (quote :: (t ++ '\r' :: c :: r)) = none := by
  cases quoted : isQuote quote with
  | false => exact afterKey?_of_not_quote _ (by rintro _ ⟨⟩; exact quoted)
  | true =>
    have stop : ∀ d ∈ ('\r' :: c :: r).head?, isLineEnd d = true := by rintro _ ⟨⟩; decide
    have rest : Inline (closers t).2 := by
      have whole : Inline ((closers t).1 ++ (closers t).2) := by
        rw [closers_append_eq]; exact inline
      exact whole.of_append.2
    obtain ⟨taken, dropped⟩ := rest.takeWhile ('\r' :: c :: r) stop
    rw [afterKey?_cons quote _ quoted,
      closers_append t _ fun d first => endsClosers_of_isLineEnd (stop d first)]
    simp only [dropped]
    split <;> simp_all

/-- What a line is behind a key: what closes the literal, the rest, and the end of the line. -/
structure Behind (closing rest lineEnd tail : Text) : Prop where
  closed : closing ≠ []
  inline : Inline rest
  ends : Ends lineEnd tail

theorem afterKey?_eq_some {t closing rest lineEnd : Text}
    (found : afterKey? t = some (closing, rest, lineEnd)) :
    ∃ tail, t = closing ++ rest ++ lineEnd ++ tail ∧ Behind closing rest lineEnd tail := by
  cases t with
  | nil => simp [afterKey?] at found
  | cons quote t =>
    cases quoted : isQuote quote with
    | false => simp [afterKey?, quoted] at found
    | true =>
      rw [afterKey?_cons quote t quoted] at found
      obtain ⟨tail, behind, ends, rfl, rfl⟩ : ∃ tail,
          (closers t).2.dropWhile (!isLineEnd ·) = lineEnd ++ tail ∧ Ends lineEnd tail ∧
          closing = quote :: (closers t).1 ∧ rest = (closers t).2.takeWhile (!isLineEnd ·) := by
        split at found <;> cases found
        · next behind => exact ⟨[], behind, ⟨.inl rfl, .inl rfl⟩, rfl, rfl⟩
        · next next behind => exact ⟨'\n' :: next, behind, ⟨.inl rfl, .inr ⟨next, rfl⟩⟩, rfl, rfl⟩
        · next behind => exact ⟨[], behind, ⟨.inr rfl, .inl rfl⟩, rfl, rfl⟩
        · next next behind => exact ⟨'\n' :: next, behind, ⟨.inr rfl, .inr ⟨next, rfl⟩⟩, rfl, rfl⟩
      refine ⟨tail, ?_, List.cons_ne_nil _ _, ?_, ends⟩
      · simp only [List.cons_append, List.append_assoc, ← behind, List.takeWhile_append_dropWhile,
          closers_append_eq]
      · exact fun c member => by simpa using List.mem_takeWhile_imp member

/-- A key without line ends stands in a line or nowhere. -/
theorem isPrefixOf?_append_lineEnd {key : Text} (t x : Text) (inline : Inline key)
    (stop : ∀ c ∈ x.head?, isLineEnd c = true) :
    key.isPrefixOf? (t ++ x) = (key.isPrefixOf? t).map (· ++ x) := by
  induction key generalizing t with
  | nil => simp [List.isPrefixOf?]
  | cons k key ih =>
    have rest : Inline key := fun c member => inline c (List.mem_cons_of_mem k member)
    cases t with
    | nil =>
      cases x with
      | nil => rfl
      | cons c x =>
        have differ : k ≠ c := by
          rintro rfl
          have := inline k (by simp)
          simp [stop k rfl] at this
        simp [List.isPrefixOf?, differ]
    | cons c t =>
      simp only [List.cons_append, List.isPrefixOf?, ih t rest]
      split <;> rfl

/-- A key and a closing quote stand at the start of a text. -/
def fits (key t : Text) : Bool := ((key.isPrefixOf? t).bind List.head?).any isQuote

theorem fits_iff {key t : Text} :
    fits key t = true ↔ ∃ quote after, isQuote quote = true ∧ t = key ++ quote :: after := by
  unfold fits
  constructor
  · intro fit
    cases found : key.isPrefixOf? t with
    | none => simp [found] at fit
    | some after =>
      cases after with
      | nil => simp [found] at fit
      | cons quote after =>
        have split := List.isPrefixOf?_eq_some_iff_append_eq.mp found
        exact ⟨quote, after, by simpa [found] using fit, split.symm⟩
  · rintro ⟨quote, after, quoted, rfl⟩
    simp [List.isPrefixOf?_eq_some_iff_append_eq.mpr rfl, quoted]

/-- The use of a key in the body of a line: what leads up to the key and its opening quote, the
key, and what follows it from its closing quote on. -/
structure Use where
  lead : Text
  key : Text
  after : Text

/-- The first use of one of the keys in the body of a line. -/
def useIn (keys : List Text) : Text → Option Use
  | [] => none
  | c :: t =>
    match if isQuote c then keys.find? (fits · t) else none with
    | some key => some ⟨[c], key, t.drop key.length⟩
    | none => (useIn keys t).map fun use => { use with lead := c :: use.lead }

/-- The site of a use, on a line that ends as given. -/
def Use.site (use : Use) (lineEnd : Text) : Site where
  lead := use.lead
  key := use.key
  closing := use.after.take 1 ++ (closers (use.after.drop 1)).1
  rest := (closers (use.after.drop 1)).2
  lineEnd := lineEnd

private theorem findSome?_eq_find?_map {α β : Type} {f : α → Option β} {p : α → Bool} {g : α → β}
    (items : List α) (each : ∀ a ∈ items, f a = if p a then some (g a) else none) :
    items.findSome? f = (items.find? p).map g := by
  induction items with
  | nil => rfl
  | cons a items ih =>
    have rest := ih fun b member => each b (List.mem_cons_of_mem a member)
    cases holds : p a <;> simp [holds, each a, rest]

theorem siteOf?_append {keys : List Text} (lead t lineEnd tail : Text)
    (inlineKeys : ∀ key ∈ keys, Inline key) (inline : Inline t) (ends : Ends lineEnd tail) :
    siteOf? keys lead (t ++ (lineEnd ++ tail)) =
      (keys.find? (fits · t)).map fun key =>
        (Use.mk lead key (t.drop key.length)).site lineEnd := by
  have stop := ends.isLineEnd_head
  refine findSome?_eq_find?_map keys fun key member => ?_
  rw [isPrefixOf?_append_lineEnd t _ (inlineKeys key member) stop]
  cases found : key.isPrefixOf? t with
  | none => simp [fits, found]
  | some after =>
    cases after with
    | nil =>
      have other := fun c first => isQuote_of_isLineEnd (stop c first)
      simp [fits, found, afterKey?_of_not_quote _ other]
    | cons quote after =>
      cases quoted : isQuote quote with
      | false =>
        have other : ∀ c ∈ (quote :: (after ++ (lineEnd ++ tail))).head?, isQuote c = false := by
          rintro _ ⟨⟩
          exact quoted
        simp [fits, found, quoted, afterKey?_of_not_quote _ other]
      | true =>
        have split := List.isPrefixOf?_eq_some_iff_append_eq.mp found
        subst split
        have rest : Inline after := fun c inside => inline c (by simp [inside])
        have cut := afterKey?_inline quote after lineEnd tail quoted rest ends
        simp [fits, found, quoted, cut, Use.site]

theorem siteOf?_eq_some {keys : List Text} {lead t : Text} {site : Site}
    (found : siteOf? keys lead t = some site) :
    site.lead = lead ∧ site.key ∈ keys ∧
      ∃ tail, t = site.key ++ (site.closing ++ site.rest ++ site.lineEnd ++ tail) ∧
        Behind site.closing site.rest site.lineEnd tail := by
  obtain ⟨key, member, here⟩ := List.exists_of_findSome?_eq_some found
  obtain ⟨after, starts, here⟩ := Option.bind_eq_some_iff.mp here
  obtain ⟨⟨closing, rest, lineEnd⟩, cut, rfl⟩ := Option.map_eq_some_iff.mp here
  have split := List.isPrefixOf?_eq_some_iff_append_eq.mp starts
  obtain ⟨tail, rfl, behind⟩ := afterKey?_eq_some cut
  exact ⟨rfl, member, tail, split.symm, behind⟩

/-- A site is the use of one of the keys, and cuts the line that the text starts with. -/
theorem firstSite?_eq_some {keys : List Text} {t : Text} {site : Site}
    (found : firstSite? keys t = some site) :
    site.key ∈ keys ∧
      ∃ tail, t = site.text ++ tail ∧ Behind site.closing site.rest site.lineEnd tail := by
  induction t generalizing site with
  | nil => simp [firstSite?] at found
  | cons c t ih =>
    rw [firstSite?] at found
    split at found
    · cases found
    split at found
    · next here =>
      cases found
      obtain ⟨-, here⟩ : isQuote c = true ∧ siteOf? keys [c] t = some site := by simpa using here
      obtain ⟨leads, member, tail, split, behind⟩ := siteOf?_eq_some here
      exact ⟨member, tail, by simp [Site.text, leads, split], behind⟩
    · obtain ⟨later, foundLater, rfl⟩ := Option.map_eq_some_iff.mp found
      obtain ⟨member, tail, split, behind⟩ := ih foundLater
      exact ⟨member, tail, by simp [Site.text, split], behind⟩

/-- The first site of a line depends on the line alone. -/
theorem firstSite?_append {keys : List Text} (body lineEnd tail : Text)
    (inlineKeys : ∀ key ∈ keys, Inline key) (inline : Inline body) (ends : Ends lineEnd tail) :
    firstSite? keys (body ++ (lineEnd ++ tail)) = (useIn keys body).map (·.site lineEnd) := by
  induction body with
  | nil =>
    cases more : lineEnd ++ tail with
    | nil => rfl
    | cons c x => simp [firstSite?, useIn, ends.isLineEnd_head c (by simp [more])]
  | cons c t ih =>
    have inlineTail : Inline t := fun d member => inline d (List.mem_cons_of_mem c member)
    have inLine : isLineEnd c = false := inline c (by simp)
    simp only [List.cons_append, firstSite?, useIn, inLine, Bool.false_eq_true, if_false,
      siteOf?_append [c] t lineEnd tail inlineKeys inlineTail ends, ih inlineTail]
    cases isQuote c with
    | false => cases useIn keys t <;> rfl
    | true =>
      cases keys.find? (fits · t) with
      | none => cases useIn keys t <;> rfl
      | some key => rfl

/-- A line with a carriage return inside has no site. -/
theorem firstSite?_of_inner_return {keys : List Text} (body r : Text) (c : Char)
    (inlineKeys : ∀ key ∈ keys, Inline key) (inline : Inline body) (inner : c ≠ '\n') :
    firstSite? keys (body ++ '\r' :: c :: r) = none := by
  have stop : ∀ d ∈ ('\r' :: c :: r).head?, isLineEnd d = true := by rintro _ ⟨⟩; decide
  induction body with
  | nil => rfl
  | cons d t ih =>
    have inlineTail : Inline t := fun e member => inline e (List.mem_cons_of_mem d member)
    have inLine : isLineEnd d = false := inline d (by simp)
    have noSite : siteOf? keys [d] (t ++ '\r' :: c :: r) = none := by
      rw [siteOf?, List.findSome?_eq_none_iff]
      intro key member
      rw [isPrefixOf?_append_lineEnd t _ (inlineKeys key member) stop]
      cases found : key.isPrefixOf? t with
      | none => rfl
      | some after =>
        have split := List.isPrefixOf?_eq_some_iff_append_eq.mp found
        subst split
        have rest : Inline after := inlineTail.of_append.2
        cases after with
        | nil => rfl
        | cons quote after =>
          have inside : Inline after := fun e member => rest e (List.mem_cons_of_mem quote member)
          simp [afterKey?_of_inner_return quote c after r inside inner]
    simp [firstSite?, inLine, noSite, ih inlineTail]

/-- A use cuts the body of a line at a key between two quotes. -/
theorem useIn_eq_some {keys : List Text} {body : Text} {use : Use}
    (found : useIn keys body = some use) :
    body = use.lead ++ use.key ++ use.after ∧ use.key ∈ keys ∧
      (∃ before quote, isQuote quote = true ∧ use.lead = before ++ [quote]) ∧
      ∃ quote after, isQuote quote = true ∧ use.after = quote :: after := by
  induction body generalizing use with
  | nil => simp [useIn] at found
  | cons c t ih =>
    rw [useIn] at found
    split at found
    · next key here =>
      obtain ⟨quoted, first⟩ : isQuote c = true ∧ keys.find? (fits · t) = some key := by
        simpa using here
      cases found
      have fit := List.find?_some first
      obtain ⟨quote, after, closed, rfl⟩ := fits_iff.mp fit
      refine ⟨by simp, List.mem_of_find?_eq_some first, ⟨[], c, quoted, rfl⟩, quote, after,
        closed, by simp⟩
    · obtain ⟨later, foundLater, rfl⟩ := Option.map_eq_some_iff.mp found
      obtain ⟨split, member, ⟨before, quote, quoted, leads⟩, closed⟩ := ih foundLater
      exact ⟨by simp [split], member, ⟨c :: before, quote, quoted, by simp [leads]⟩, closed⟩

/-- A quote that follows a key in a text follows it in the kept part already, unless the key takes
all of that and the part without quotes behind it. -/
private theorem closed_in_kept {key kept plain gloss after : Text} {quote : Char}
    (outside : quote ∉ plain) (notEmpty : plain ≠ [])
    (equal : kept ++ (plain ++ gloss) = key ++ quote :: after) :
    (∃ more, kept = key ++ quote :: more) ∨ kept ++ plain <+: key := by
  rcases List.append_eq_append_iff.mp equal with ⟨beyond, rfl, behind⟩ | ⟨beyond, rfl, behind⟩
  · rcases List.append_eq_append_iff.mp behind with ⟨past, rfl, -⟩ | ⟨past, split, starts⟩
    · exact .inr ⟨past, by simp⟩
    · cases past with
      | nil => exact .inr ⟨[], by simp [split]⟩
      | cons c past =>
        cases starts
        exact absurd (by simp [split]) outside
  · cases beyond with
    | nil =>
      obtain ⟨c, plain, rfl⟩ := List.exists_cons_of_ne_nil notEmpty
      cases behind
      exact absurd (by simp) outside
    | cons c beyond =>
      cases behind
      exact .inl ⟨beyond, rfl⟩

theorem marker_ne_nil : marker ≠ [] := by decide

/-- A key that cannot reach from a literal into the gloss behind it. -/
def Steady (key : Text) : Prop := marker <:+: key → ∀ c ∈ key, isQuote c = false

/-- No key reaches over a quote and the marker of a gloss: one that fits a glossed line fits the line
without the gloss. -/
theorem fits_of_fits_marker {key : Text} (kept gap gloss rest : Text) (steady : Steady key)
    (closed : ∃ c ∈ kept, isQuote c = true) (plain : ∀ c ∈ gap ++ marker, isQuote c = false)
    (fit : fits key (kept ++ (gap ++ marker ++ gloss)) = true) :
    fits key (kept ++ rest) = true := by
  obtain ⟨quote, after, quoted, equal⟩ := fits_iff.mp fit
  have outside : quote ∉ gap ++ marker := fun member => by simp [plain quote member] at quoted
  rcases closed_in_kept outside (by simp [marker_ne_nil]) equal with ⟨more, rfl⟩ | within
  · exact fits_iff.mpr ⟨quote, more ++ rest, quoted, by simp⟩
  · obtain ⟨c, inside, mark⟩ := closed
    have marked : marker <:+: key :=
      (((List.suffix_append gap marker).trans (List.suffix_append kept _)).isInfix).trans within.isInfix
    have silent := steady marked c (within.subset (List.mem_append_left _ inside))
    rw [mark] at silent
    cases silent

/-- A key that is found at the start of a text is found there as well when fewer keys fit. -/
private theorem find?_eq_some_of_imp {α : Type} {p q : α → Bool} {items : List α} {a : α}
    (imp : ∀ b ∈ items, q b = true → p b = true) (holds : q a = true)
    (found : items.find? p = some a) : items.find? q = some a := by
  obtain ⟨-, before, after, rfl, earlier⟩ := List.find?_eq_some_iff_append.mp found
  refine List.find?_eq_some_iff_append.mpr ⟨holds, before, after, rfl, fun b member => ?_⟩
  have := imp b (by simp [member])
  have := earlier b member
  cases holdsHere : q b <;> simp_all

/-- A gloss put behind the literal of the first use of a line leaves that use the first. -/
theorem useIn_extend {keys : List Text} {body : Text} {use : Use} {kept rest : Text}
    (gap gloss : Text) (steady : ∀ key ∈ keys, Steady key)
    (plain : ∀ c ∈ gap ++ marker, isQuote c = false) (found : useIn keys body = some use)
    (split : use.after = kept ++ rest) (closed : kept ≠ []) :
    useIn keys (use.lead ++ use.key ++ (kept ++ (gap ++ marker ++ gloss))) =
      some { use with after := kept ++ (gap ++ marker ++ gloss) } := by
  have quoted : ∃ c ∈ kept, isQuote c = true := by
    obtain ⟨-, -, -, quote, after, quoted, starts⟩ := useIn_eq_some found
    obtain ⟨d, kept, rfl⟩ := List.exists_cons_of_ne_nil closed
    obtain rfl : d = quote := (List.cons.inj (split.symm.trans starts)).1
    exact ⟨d, List.mem_cons_self, quoted⟩
  have fewer (y : Text) : ∀ key ∈ keys,
      fits key (y ++ (kept ++ (gap ++ marker ++ gloss))) → fits key (y ++ (kept ++ rest)) := by
    intro key member fit
    obtain ⟨c, inside, mark⟩ := quoted
    rw [← List.append_assoc] at fit ⊢
    exact fits_of_fits_marker _ gap gloss rest (steady key member)
      ⟨c, List.mem_append_right y inside, mark⟩ plain fit
  induction body generalizing use with
  | nil => simp [useIn] at found
  | cons c t ih =>
    obtain ⟨whole, -, -, quote, after, quoted, starts⟩ := useIn_eq_some found
    rw [useIn] at found
    split at found
    · next key here =>
      cases found
      obtain ⟨opened, first⟩ : isQuote c = true ∧ keys.find? (fits · t) = some key := by
        simpa using here
      have text : t = key ++ (kept ++ rest) := by rw [← split]; simpa using whole
      have fit : fits key (key ++ (kept ++ (gap ++ marker ++ gloss))) = true := by
        obtain ⟨d, kept, rfl⟩ := List.exists_cons_of_ne_nil closed
        obtain rfl : d = quote := (List.cons.inj (split.symm.trans starts)).1
        exact fits_iff.mpr ⟨d, _, quoted, rfl⟩
      have again := find?_eq_some_of_imp (fewer key) fit (text ▸ first)
      simp only [List.cons_append, List.nil_append, useIn, opened, if_true, again,
        List.drop_left]
    · next here =>
      obtain ⟨later, foundLater, rfl⟩ := Option.map_eq_some_iff.mp found
      have text : t = later.lead ++ later.key ++ (kept ++ rest) := by
        rw [← split]; simpa using whole
      have noFit : (if isQuote c then keys.find?
          (fits · (later.lead ++ later.key ++ (kept ++ (gap ++ marker ++ gloss)))) else none) =
            none := by
        cases opened : isQuote c with
        | false => rfl
        | true =>
          rw [opened, if_pos rfl, text, List.find?_eq_none] at here
          rw [if_pos rfl, List.find?_eq_none]
          exact fun key member fit => here key member (fewer _ key member fit)
      have again := ih foundLater split
      simp only [List.cons_append, List.append_assoc] at noFit again ⊢
      simp [useIn, noFit, again]

end Gloss

end KeyGloss
