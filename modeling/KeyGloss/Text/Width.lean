import KeyGloss.Text.Basic
import KeyGloss.Text.WidthTable

/-!
# Display width

How many columns a text takes on a terminal. Most characters count for themselves; the
exceptions are sequences shown as one picture or one ligature. The text is read from its
end, and what was read last tells whether the character before it belongs to a sequence.
The width only decides where a report puts its mark below a source line.
-/

namespace KeyGloss

/-- What the width of a character depends on: the sequence that starts right after it. -/
inductive WidthContext where
  | plain
  | lineFeed
  /-- An emoji. -/
  | emoji
  /-- A skin tone. -/
  | modifier
  /-- A regional indicator. -/
  | region
  /-- A joiner before an emoji. -/
  | joiner
  /-- An odd number of regional indicators before a joiner. -/
  | oddRegions
  /-- An even number of regional indicators before a joiner. -/
  | evenRegions
  /-- The mark that asks for emoji form; `joined` tells that a joiner follows it. -/
  | emojiMark (joined : Bool)
  /-- A key cap before a joiner; `marked` tells that a mark stands before it. -/
  | keyCap (marked : Bool)
  /-- The mark that asks for text form. -/
  | textMark
  /-- An Arabic alef. -/
  | alef
  deriving DecidableEq, Repr

namespace WidthContext

/-- Regional indicators, of which two make a flag. -/
def isRegion (c : Char) : Bool := 0x1f1e6 ≤ c.toNat && c.toNat ≤ 0x1f1ff

/-- Skin tones. -/
def isModifier (c : Char) : Bool := 0x1f3fb ≤ c.toNat && c.toNat ≤ 0x1f3ff

/-- The forms of the Arabic letter alef that join with a lam. -/
def isAlef (c : Char) : Bool :=
  let n := c.toNat
  n == 0x622 || n == 0x623 || n == 0x625 || n == 0x627 || (0x671 ≤ n && n ≤ 0x673) || n == 0x675
    || n == 0x773 || n == 0x774

/-- The forms of the Arabic letter lam that join with an alef. -/
def isLam (c : Char) : Bool :=
  let n := c.toNat
  n == 0x644 || (0x6b5 ≤ n && n ≤ 0x6b8) || n == 0x76a || n == 0x8a6 || n == 0x8c7

/-- The width of a character by itself, and the context it makes. -/
def alone (c : Char) : Int × WidthContext :=
  if c.toNat ≤ 0xa0 then (1, .plain)
  else if c == '\ufe0f' then (0, .emojiMark false)
  else if c == '\ufe0e' then (0, .textMark)
  else if isRegion c then (1, .region)
  else if isModifier c then (2, .modifier)
  else if isAlef c then (1, .alef)
  else if inRanges emojiPresentationRanges c then (2, .emoji)
  else if c.toNat == 0x17d8 then (3, .plain)
  else if inRanges zeroWidthRanges c then (0, .plain)
  else if inRanges wideRanges c then (2, .plain)
  else (1, .plain)

/-- The width that a character adds before a context, and the context it makes there; none
when it starts or continues no sequence. -/
def sequence? (context : WidthContext) (c : Char) : Option (Int × WidthContext) :=
  match context with
  | .emojiMark joined =>
    if inRanges emojiRanges c then some (if joined then 0 else 2, .emoji) else none
  | .lineFeed => if c == '\r' then some (0, .plain) else none
  | .textMark =>
    if inRanges emojiPresentationRanges c && !(0x1f200 ≤ c.toNat && c.toNat ≤ 0x1f2ff) then
      some (1, .plain)
    else none
  | .alef =>
    if isLam c then some (0, .plain)
    else if c.toNat > 0xa0 && inRanges zeroWidthRanges c && c != '\ufe0f' && c != '\ufe0e' then
      some (0, .alef)
    else none
  | .modifier =>
    if inRanges emojiModifierBaseRanges c then some (0, .emoji)
    else if c == '\u200d' then some (0, .joiner)
    else none
  | .emoji => if c == '\u200d' then some (0, .joiner) else none
  | .region => if isRegion c then some (1, .region) else
      if c == '\u200d' then some (0, .joiner) else none
  | .oddRegions =>
    if isRegion c then some (-1, .evenRegions)
    else if c == '\u200d' then some (0, .joiner) else none
  | .evenRegions =>
    if isRegion c then some (3, .oddRegions)
    else if c == '\u200d' then some (0, .joiner) else none
  | .joiner =>
    if c == '\ufe0f' then some (0, .emojiMark true)
    else if c == '\u20e3' then some (0, .keyCap false)
    else if isRegion c then some (1, .oddRegions)
    else if isModifier c then some (0, .modifier)
    else if inRanges emojiPresentationRanges c then some (0, .emoji)
    else none
  | .keyCap false => if c == '\ufe0f' then some (0, .keyCap true) else none
  | .keyCap true =>
    if c.isDigit || c == '#' || c == '*' then some (0, .emoji) else none
  | .plain => none

/-- The width that a character adds before a context, and the context it makes. -/
def before (context : WidthContext) (c : Char) : Int × WidthContext :=
  match sequence? context c with
  | some result => result
  | none => if c == '\n' then (1, .lineFeed) else alone c

end WidthContext

/-- How many columns a text takes. -/
def Text.width (t : Text) : Nat :=
  (t.foldr (fun c (sum, context) =>
    let (add, context) := WidthContext.before context c
    (sum + add, context)) ((0 : Int), WidthContext.plain)).1.toNat

end KeyGloss
