import KeyGloss.KeyMap
import KeyGloss.Source

/-!
# Glosses

A gloss is a comment at the end of a line that shows the messages of a key used on
that line: `// skiver: (en) Hello; (no) Hei;`.

A *site* is the first place on a line where a key stands between quotes. The line is
cut at its site: what leads up to the key, the key, the characters that close the
literal, the rest, and the line's carriage return. A glossed line ends in the gloss of
its site's key; a rest that holds more than a comma moves to a line of its own, where
it may be glossed in turn. Passes over the text are repeated until one changes nothing.

A site is found by a search of its own, not by a pattern with all keys as its alternatives; so
there is no limit here on how large such a pattern may be. The passes know nothing of tokens.
-/

namespace KeyGloss

namespace Gloss

/-- What every gloss starts with. -/
def marker : Text := "// skiver: "

/-- The gloss of a key's messages: the non-empty ones in the order of their locales, on
one line. A key without any has no gloss. -/
def render? (values : LocaleValues) : Option Text :=
  let shown := values.filter fun (_, value) => !value.isEmpty
  let joined := shown.flatMap fun (locale, value) =>
    "(" ++ locale ++ ") " ++ value ++ "; "
  if joined.isEmpty then none
  else
    let flat := Text.flattenLines joined
    some (if flat.getLast? = some ' ' then flat.dropLast else flat)

/-- A quote of a string literal. -/
def isQuote (c : Char) : Bool := c == '"' || c == '\'' || c == '\x60'

/-- A bracket that may close right after a literal. -/
def isClosing (c : Char) : Bool := c == ')' || c == ']' || c == '\x7d'

/-- A blank or a tab. -/
def isGap (c : Char) : Bool := c == ' ' || c == '\t'

/-- A character that belongs to no line. -/
def isLineEnd (c : Char) : Bool := c == '\r' || c == '\n'

/-- A line, or lines when the key itself holds line feeds, cut at the use of a key. -/
structure Site where
  /-- Up to and with the opening quote. -/
  lead : Text
  key : Text
  /-- The closing quote, brackets, a semicolon and blanks. -/
  closing : Text
  rest : Text
  /-- The carriage return that ends the line, if any. -/
  lineEnd : Text
  deriving DecidableEq, Repr

namespace Site

/-- The text that a site was cut from. -/
def text (s : Site) : Text := s.lead ++ s.key ++ s.closing ++ s.rest ++ s.lineEnd

/-- The rest up to a gloss, and the gloss with trailing blanks removed. -/
def splitRest (s : Site) : Text × Option Text :=
  match Text.breakAt? marker s.rest with
  | some (before, after) => (before, some after.trimEnd)
  | none => (s.rest, none)

/-- The line with its gloss. The rest of the line, unless it is blank or a comma,
follows on a line of its own. -/
def withGloss (s : Site) (gloss rest : Text) : Text :=
  let used := s.lead ++ s.key ++ s.closing
  let gap : Text :=
    if rest.trim = [','] then ", "
    else if (used.getLast?.map isBlank).getD false then []
    else " "
  let moved : Text :=
    if rest.trim = [','] || rest.trim.isEmpty then []
    else s.lineEnd ++ '\n' :: rest
  used ++ gap ++ marker ++ gloss ++ moved ++ s.lineEnd

/-- The line with the gloss it should have; none when the line is a comment, when the
key has no gloss, and when the gloss is there already. -/
def glossed? (m : KeyMap) (s : Site) : Option Text :=
  if ("//" : Text).isPrefixOf s.lead.trimStart then none
  else
    match (m.get? s.key).bind render? with
    | none => none
    | some gloss =>
      let (rest, present) := s.splitRest
      if present = some gloss then none else some (s.withGloss gloss rest)

end Site

/-- What follows a key's literal up to the end of the line: the closing characters,
the rest and the carriage return. A carriage return elsewhere on the line is not accepted. -/
def afterKey? : Text → Option (Text × Text × Text)
  | [] => none
  | quote :: t =>
    if isQuote quote then
      let brackets := t.takeWhile isClosing
      let t := t.dropWhile isClosing
      let semicolon := t.take (if t.head? = some ';' then 1 else 0)
      let t := t.drop semicolon.length
      let gap := t.takeWhile isGap
      let t := t.dropWhile isGap
      let closing := quote :: (brackets ++ semicolon ++ gap)
      let rest := t.takeWhile (!isLineEnd ·)
      match t.dropWhile (!isLineEnd ·) with
      | [] => some (closing, rest, [])
      | '\n' :: _ => some (closing, rest, [])
      | ['\r'] => some (closing, rest, ['\r'])
      | '\r' :: '\n' :: _ => some (closing, rest, ['\r'])
      | _ => none
    else none

/-- The site whose opening quote was just passed: the first of the keys that stands
here as a whole literal. -/
def siteOf? (keys : List Text) (lead t : Text) : Option Site :=
  keys.findSome? fun key =>
    (key.isPrefixOf? t).bind fun after =>
      (afterKey? after).map fun (closing, rest, lineEnd) => ⟨lead, key, closing, rest, lineEnd⟩

/-- The first site of the line that a text starts with. -/
def firstSite? (keys : List Text) : Text → Option Site
  | [] => none
  | c :: t =>
    if isLineEnd c then none
    else
      match if isQuote c then siteOf? keys [c] t else none with
      | some site => some site
      | none => (firstSite? keys t).map fun s => { s with lead := c :: s.lead }

/-- What a pass makes of the line that a text starts with. -/
structure GlossedLine where
  /-- The line after the pass. -/
  text : Text
  /-- Whether the line was glossed. -/
  changed : Bool
  /-- How many characters of the text the line took; a line break inside a key belongs to it. -/
  taken : Nat
  deriving DecidableEq, Repr

/-- A pass over the line that a text starts with: when its gloss is missing or stale, the line
is glossed at its first site. -/
def passLine (m : KeyMap) (t : Text) : GlossedLine :=
  match firstSite? m.keys t with
  | some site =>
    match site.glossed? m with
    | some line => ⟨line, true, site.text.length⟩
    | none => ⟨site.text, false, site.text.length⟩
  | none =>
    let line := t.takeWhile (· != '\n')
    ⟨line, false, line.length⟩

/-- One pass over the lines of a text. The number counts the glossed lines. -/
def pass (m : KeyMap) : Text → Text × Nat
  | [] => ([], 0)
  | c :: r =>
    let line := passLine m (c :: r)
    let count := if line.changed then 1 else 0
    match (c :: r).drop line.taken with
    | '\n' :: _ =>
      let (after, more) := pass m (r.drop line.taken)
      (line.text ++ '\n' :: after, count + more)
    | tail => (line.text ++ tail, count)
termination_by t => t.length
decreasing_by
  all_goals simp only [List.length_cons, List.length_drop]; omega

end Gloss

/-- Passes until one changes nothing: the text that it leaves, and how many lines were glossed,
`glossed` of them before. Passes that never come to an end have no result. -/
def KeyMap.settle? (m : KeyMap) (glossed : Nat) (t : Text) : Option (Text × Nat) :=
  let (next, count) := Gloss.pass m t
  if count = 0 then some (t, glossed) else m |>.settle? (glossed + count) next
partial_fixpoint

namespace Gloss

/-- The text with the glosses of its keys, and how many lines were glossed. The passes come to an
end, and there are no more of them than characters, for keys on one line that hold no marker. A
key that holds a marker behind a quote can make more of them, or passes without end; a text whose
passes do not end stands for a run that does not return. -/
def annotate (m : KeyMap) (t : Text) : Text × Nat := (m.settle? 0 t).getD (t, 0)

/-- The source with its glosses; its tokens stay when no line is glossed. -/
def apply (m : KeyMap) (s : Source) : Source × Outcome :=
  let (text, replacements) := annotate m s.text
  if replacements = 0 then (s, {}) else (s.setTokens [⟨.text, text⟩], { replacements })

end Gloss

end KeyGloss
