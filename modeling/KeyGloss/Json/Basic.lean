import KeyGloss.Number.Seconds

/-!
# JSON values

Members of an object keep the order in which they were first given. A text is written between
double quotes, with quotes, backslashes and control characters escaped and everything else as
it is.
-/

namespace KeyGloss

/-- A JSON number as it is read: whole numbers of 64 bits, and binary fractions in
double precision for all others. -/
inductive JsonNumber where
  | natural (n : Nat)
  /-- The number `-n`. -/
  | negative (n : Nat)
  | fraction (isNegative : Bool) (value : Binary)
  deriving DecidableEq, Repr

/-- A JSON value. -/
inductive Json where
  | null
  | bool (b : Bool)
  | number (n : JsonNumber)
  | string (t : Text)
  | array (elements : List Json)
  | object (members : List (Text × Json))
  deriving Repr, Inhabited

namespace JsonNumber

/-- A power of ten between `10 ^ -5` and `10 ^ 16` keeps a number positional. -/
def isPositional (power : Int) : Bool := -5 ≤ power && power < 16

/-- A positional decimal that shows that it is a fraction. -/
def withPoint (d : Decimal) : Text :=
  if 0 ≤ d.exponent then d.positional ++ ['.', '0'] else d.positional

/-- An exponent with its sign and at least two digits. -/
def exponentText (power : Int) : Text :=
  let sign := if power < 0 then '-' else '+'
  let digits := Text.ofNat power.natAbs
  'e' :: sign :: (if digits.length < 2 then '0' :: digits else digits)

/-- The digits of a decimal with a point after the first, and its power of ten. -/
def scientific (d : Decimal) : Text :=
  let digits := Text.ofNat d.digits
  let power := d.exponent + (digits.length - 1 : Nat)
  digits.take 1 ++ (if 1 < digits.length then '.' :: digits.drop 1 else []) ++ exponentText power

/-- The decimal of a double. -/
def decimalText (value : Binary) : Text :=
  let d := Decimal.shortest .double value
  if isPositional (d.exponent + ((Text.ofNat d.digits).length - 1 : Nat)) then withPoint d
  else scientific d

/-- The text of a number: the fewest digits that read back, positional where the number
is neither very large nor very small. -/
def text : JsonNumber → Text
  | .natural n => Text.ofNat n
  | .negative n => '-' :: Text.ofNat n
  | .fraction isNegative value => (if isNegative then ['-'] else []) ++ decimalText value

end JsonNumber

namespace Json

/-- A digit of base sixteen in lower case. -/
def hexDigit (n : Nat) : Char := Nat.digitChar n

/-- How a character stands inside a JSON string. -/
def escape (c : Char) : Text :=
  match c with
  | '"' => "\\\""
  | '\\' => "\\\\"
  | '\x08' => "\\b"
  | '\x0c' => "\\f"
  | '\n' => "\\n"
  | '\r' => "\\r"
  | '\t' => "\\t"
  | _ =>
    if c.toNat < 0x20 then "\\u00" ++ [hexDigit (c.toNat / 16), hexDigit (c.toNat % 16)]
    else [c]

/-- A text as a JSON string. -/
def quote (t : Text) : Text := '"' :: t.flatMap escape ++ ['"']

mutual

/-- A value on several lines, two blanks for each level; `depth` is the level it stands on. -/
def pretty (depth : Nat) : Json → Text
  | .null => "null"
  | .bool true => "true"
  | .bool false => "false"
  | .number n => n.text
  | .string t => quote t
  | .array [] => "[]"
  | .array (e :: rest) =>
    '[' :: prettyElements (depth + 1) true (e :: rest) ++ lineStart depth ++ [']']
  | .object [] => "\x7b\x7d"
  | .object (m :: rest) =>
    '\x7b' :: prettyMembers (depth + 1) true (m :: rest) ++ lineStart depth ++ ['\x7d']

/-- The elements of an array, each on a line of its own. -/
def prettyElements (depth : Nat) (first : Bool) : List Json → Text
  | [] => []
  | e :: rest =>
    separator first ++ lineStart depth ++ pretty depth e ++ prettyElements depth false rest

/-- The members of an object, each on a line of its own. -/
def prettyMembers (depth : Nat) (first : Bool) : List (Text × Json) → Text
  | [] => []
  | (key, value) :: rest =>
    separator first ++ lineStart depth ++ quote key ++ ": " ++ pretty depth value
      ++ prettyMembers depth false rest

/-- What stands before an element. -/
def separator (first : Bool) : Text := if first then [] else [',']

/-- A line feed and the blanks of a level. -/
def lineStart (depth : Nat) : Text := '\n' :: List.replicate (2 * depth) ' '

end

end Json

end KeyGloss
