import KeyGloss.Text.Basic

/-!
# Texts as bytes

Files hold bytes, and a text is stored as its UTF-8 bytes. Not all bytes are a text; those
that are not can still be shown, with a replacement character for every piece that starts a
character and does not finish it, and for every byte that starts none.
-/

namespace KeyGloss

namespace Text

/-- The UTF-8 bytes of a text. -/
def encode (t : Text) : ByteArray := (String.ofList t).toUTF8

/-- The UTF-8 bytes of a text one after the other. -/
def bytes (t : Text) : List UInt8 := t.encode.data.toList

/-- The text that bytes stand for, if they stand for one. -/
def decode? (bytes : ByteArray) : Option Text := (String.fromUTF8? bytes).map String.toList

/-- How many UTF-8 bytes a text takes. -/
def utf8Length (t : Text) : Nat := t.foldr (fun c rest => c.utf8Size + rest) 0

/-- What a first byte says about the bytes that follow. -/
inductive Lead where
  /-- The byte is a whole character. -/
  | whole
  /-- The byte starts no character. -/
  | stray
  /-- So many bytes follow, and the first of them lies in the given range. -/
  | start (low high : UInt8) (following : Nat)
  deriving DecidableEq, Repr

/-- What a first byte says about the bytes that follow. -/
def Lead.ofByte (b : UInt8) : Lead :=
  if b < 0x80 then .whole
  else if b < 0xC2 then .stray
  else if b < 0xE0 then .start 0x80 0xBF 1
  else if b = 0xE0 then .start 0xA0 0xBF 2
  else if b = 0xED then .start 0x80 0x9F 2
  else if b < 0xF0 then .start 0x80 0xBF 2
  else if b = 0xF0 then .start 0x90 0xBF 3
  else if b < 0xF4 then .start 0x80 0xBF 3
  else if b = 0xF4 then .start 0x80 0x8F 3
  else .stray

/-- How many of the bytes, at most `following`, continue a character. -/
def continuing (low high : UInt8) : Nat → List UInt8 → Nat
  | following + 1, b :: rest =>
    if low ≤ b ∧ b ≤ high then continuing 0x80 0xBF following rest + 1 else 0
  | _, _ => 0

/-- The payload of a first byte of a character of `following + 1` bytes. -/
def leadBits (following : Nat) (b : UInt8) : Nat := b.toNat % Nat.pow 2 (6 - following)

/-- The character of a first byte and the bytes that follow it. -/
def assemble (following : Nat) (first : UInt8) (others : List UInt8) : Char :=
  Char.ofNat (others.foldl (fun n b => n * 64 + b.toNat % 64) (leadBits following first))

/-- The character that takes the place of what is no character. -/
def replacement : Char := '�'

/-- Bytes as a text to be shown. -/
def decodeShown : List UInt8 → Text
  | [] => []
  | b :: rest =>
    match Lead.ofByte b with
    | .whole => Char.ofNat b.toNat :: decodeShown rest
    | .stray => replacement :: decodeShown rest
    | .start low high following =>
      let found := continuing low high following rest
      let shown :=
        if found = following then assemble following b (rest.take following) else replacement
      shown :: decodeShown (rest.drop found)
termination_by bytes => bytes.length
decreasing_by
  all_goals simp only [List.length_cons, List.length_drop]; omega

end Text

end KeyGloss
