import KeyGloss.Json.Basic
import KeyGloss.Text.Quoted

/-!
# JSON errors

What is wrong with a JSON text, and where. Lines count from one, and columns count the
bytes of the line that were read.
-/

namespace KeyGloss

/-- What was found in place of the value that was asked for. -/
inductive JsonFound where
  | null
  | bool (b : Bool)
  | number (n : JsonNumber)
  | string (t : Text)
  | array
  | object
  deriving DecidableEq, Repr

namespace JsonFound

/-- The wording of a found value. -/
def describe : JsonFound → Text
  | .null => "null"
  | .bool true => "boolean `true`"
  | .bool false => "boolean `false`"
  | .number (.fraction isNegative value) =>
    "floating point `" ++ (JsonNumber.fraction isNegative value).text ++ "`"
  | .number n => "integer `" ++ n.text ++ "`"
  | .string t => "string " ++ t.quoted
  | .array => "sequence"
  | .object => "map"

end JsonFound

/-- What is wrong with a JSON text. -/
inductive JsonFault where
  | endInArray
  | endInObject
  | endInString
  | endInValue
  | noColon
  | noArrayEnd
  | noObjectEnd
  | noWord
  | noValue
  | badEscape
  | badNumber
  | outOfRange
  | controlCharacter
  | keyNotString
  | loneSurrogate
  | trailingComma
  | trailingCharacters
  | shortHexEscape
  | tooDeep
  /-- A value of another kind than `expected`. -/
  | invalidType (found : JsonFound) (expected : Text)
  /-- A value of the right kind that is not `expected`. -/
  | invalidValue (found : JsonFound) (expected : Text)
  | unknownVariant (name : Text) (known : List Text)
  | duplicateField (name : Text)
  deriving DecidableEq, Repr

namespace JsonFault

/-- The wording of a fault. -/
def describe : JsonFault → Text
  | .endInArray => "EOF while parsing a list"
  | .endInObject => "EOF while parsing an object"
  | .endInString => "EOF while parsing a string"
  | .endInValue => "EOF while parsing a value"
  | .noColon => "expected `:`"
  | .noArrayEnd => "expected `,` or `]`"
  | .noObjectEnd => "expected `,` or `\x7d`"
  | .noWord => "expected ident"
  | .noValue => "expected value"
  | .badEscape => "invalid escape"
  | .badNumber => "invalid number"
  | .outOfRange => "number out of range"
  | .controlCharacter => "control character (\\u0000-\\u001F) found while parsing a string"
  | .keyNotString => "key must be a string"
  | .loneSurrogate => "lone leading surrogate in hex escape"
  | .trailingComma => "trailing comma"
  | .trailingCharacters => "trailing characters"
  | .shortHexEscape => "unexpected end of hex escape"
  | .tooDeep => "recursion limit exceeded"
  | .invalidType found expected =>
    "invalid type: " ++ found.describe ++ ", expected " ++ expected
  | .invalidValue found expected =>
    "invalid value: " ++ found.describe ++ ", expected " ++ expected
  | .unknownVariant name known =>
    "unknown variant `" ++ name ++ "`, expected one of "
      ++ Text.join ", " (known.map fun k => '\x60' :: k ++ ['\x60'])
  | .duplicateField name => "duplicate field `" ++ name ++ "`"

end JsonFault

/-- A place in a text that is read byte by byte. -/
structure TextPlace where
  line : Nat := 1
  column : Nat := 0
  deriving DecidableEq, Repr

namespace TextPlace

/-- The place after the first byte of a character. -/
def afterByte (p : TextPlace) (c : Char) : TextPlace :=
  if c = '\n' then ⟨p.line + 1, 0⟩ else ⟨p.line, p.column + 1⟩

/-- The place after a character. -/
def after (p : TextPlace) (c : Char) : TextPlace :=
  if c = '\n' then ⟨p.line + 1, 0⟩ else ⟨p.line, p.column + c.utf8Size⟩

/-- The place after a text. -/
def afterText (p : TextPlace) (t : Text) : TextPlace := t.foldl after p

/-- The place after the first `n` bytes of a text. -/
def afterBytes (p : TextPlace) : Nat → Text → TextPlace
  | 0, _ => p
  | _, [] => p
  | n, c :: rest =>
    if c.utf8Size ≤ n then (p.after c).afterBytes (n - c.utf8Size) rest
    else ⟨p.line, p.column + n⟩

end TextPlace

/-- A fault and its place; the place of a fault that a value's meaning makes is known only
where the value ends. -/
structure JsonError where
  fault : JsonFault
  place : Option TextPlace
  deriving DecidableEq, Repr

namespace JsonError

/-- The wording of an error. -/
def message (e : JsonError) : Text :=
  match e.place with
  | some p => e.fault.describe ++ " at line " ++ Text.ofNat p.line ++ " column " ++ Text.ofNat p.column
  | none => e.fault.describe

end JsonError

end KeyGloss
