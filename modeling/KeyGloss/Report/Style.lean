import KeyGloss.Text.Basic

/-!
# Coloured text

A styled piece of text is wrapped in escape sequences when colours are on, and stands as it
is when they are off. The sequences are defined here. Styles are never nested, so no sequence has
to be put back inside another; whether colours are on is up to the caller.
-/

namespace KeyGloss

/-- A style of a piece of text. -/
inductive Style where
  | bold
  | dimmed
  | red
  | green
  | yellow
  | blue
  | cyan
  deriving DecidableEq, Repr

namespace Style

/-- The code of a style in an escape sequence. -/
def code : Style → Text
  | .bold => "1"
  | .dimmed => "2"
  | .red => "31"
  | .green => "32"
  | .yellow => "33"
  | .blue => "34"
  | .cyan => "36"

end Style

/-- The character that starts an escape sequence. -/
def escapeChar : Char := '\x1b'

/-- A text in the given styles. -/
def paint (color : Bool) (styles : List Style) (t : Text) : Text :=
  if color then
    escapeChar :: '[' :: (Text.join ";" (styles.map Style.code) ++ 'm' :: t)
      ++ [escapeChar, '[', '0', 'm']
  else t

/-- A text with blanks before it up to a width. -/
def padLeft (width : Nat) (t : Text) : Text := List.replicate (width - t.length) ' ' ++ t

end KeyGloss
