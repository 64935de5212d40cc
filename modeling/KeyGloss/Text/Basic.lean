/-!
# Text

Every rule of this library reads and writes text one character at a time, so a
text is the list of its characters. String literals are read as texts where a
text is expected. Texts are compared by code points, which is also the order of
their UTF-8 bytes.
-/

namespace KeyGloss

/-- A text is the list of its characters. -/
abbrev Text := List Char

instance : Coe String Text := ⟨String.toList⟩

namespace Text

/-- The decimal digits of a number. -/
def ofNat (n : Nat) : Text := Nat.toDigits 10 n

/-- The decimal digits of a whole number after its sign; zero counts as positive. -/
def ofSigned : Int → Text
  | .ofNat n => '+' :: ofNat n
  | .negSucc n => '-' :: ofNat (n + 1)

/-- The pieces one after the other, with `separator` between neighbours. -/
def join (separator : Text) (pieces : List Text) : Text := separator.intercalate pieces

/-- How many line feeds a text holds. -/
def lineFeeds (t : Text) : Nat := t.count '\n'

/-- What stands before and after the first occurrence of `needle`. -/
def breakAt? (needle : Text) : Text → Option (Text × Text)
  | [] => if needle.isEmpty then some ([], []) else none
  | c :: r =>
    match needle.isPrefixOf? (c :: r) with
    | some after => some ([], after)
    | none => (breakAt? needle r).map fun (before, after) => (c :: before, after)

/-- Whether `needle` occurs in the text. -/
def includes (needle t : Text) : Bool := (breakAt? needle t).isSome

/-- The text without any leading `c`. -/
def dropLeading (c : Char) (t : Text) : Text := t.dropWhile (· == c)

/-- The text without any trailing `c`. -/
def dropTrailing (c : Char) (t : Text) : Text := (t.reverse.dropWhile (· == c)).reverse

/-- What follows the last `c`, or the whole text when there is none. -/
def afterLast (c : Char) (t : Text) : Text := (t.reverse.takeWhile (· != c)).reverse

/-- Every character `old` becomes the text `new`. -/
def replaceChar (old : Char) (new : Text) (t : Text) : Text :=
  t.flatMap fun c => if c = old then new else [c]

/-- Every carriage return that stands before a line feed becomes one blank
together with it, and so does every other line feed. -/
def flattenLines : Text → Text
  | [] => []
  | '\r' :: '\n' :: r => ' ' :: flattenLines r
  | '\n' :: r => ' ' :: flattenLines r
  | c :: r => c :: flattenLines r

/-- One line of a text without the carriage return that ends it. -/
def chompReturn (line : Text) : Text :=
  if line.getLast? = some '\r' then line.dropLast else line

/-- The lines of a text: each line feed ends a line and is dropped together with
one carriage return before it. A last line without a line feed is kept as it is,
and is no line when it is empty. -/
def lines (t : Text) : List Text :=
  let pieces := t.splitOn '\n'
  let unfinished := pieces.getLast?.getD []
  pieces.dropLast.map chompReturn ++ (if unfinished.isEmpty then [] else [unfinished])

/-- Whether a text comes before or with another in the order of code points. -/
def le : Text → Text → Bool
  | [], _ => true
  | _ :: _, [] => false
  | a :: as, b :: bs => if a = b then le as bs else a < b

end Text

/-- Whether a character is white space: it has the Unicode property `White_Space`. -/
def isBlank (c : Char) : Bool :=
  let n := c.toNat
  (9 ≤ n && n ≤ 13) || n == 0x20 || n == 0x85 || n == 0xA0 || n == 0x1680
    || (0x2000 ≤ n && n ≤ 0x200A) || n == 0x2028 || n == 0x2029 || n == 0x202F
    || n == 0x205F || n == 0x3000

namespace Text

/-- The text without leading blanks. -/
def trimStart (t : Text) : Text := t.dropWhile isBlank

/-- The text without trailing blanks. -/
def trimEnd (t : Text) : Text := (t.reverse.dropWhile isBlank).reverse

/-- The text without blanks at either end. -/
def trim (t : Text) : Text := t.trimStart.trimEnd

end Text

end KeyGloss
