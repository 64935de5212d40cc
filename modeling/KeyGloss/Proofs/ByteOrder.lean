import Mathlib.Data.List.Basic
import KeyGloss.Proofs.Order
import KeyGloss.Text.Utf8

/-!
# The order of texts and of their bytes

A character is stored as a first byte, which tells how many bytes follow, and then its bits in groups of six
(`utf8EncodeChar_eq`). The first bytes grow with the number of bytes that follow, and behind equal first bytes
the groups are compared from the highest to the lowest. So texts are in the order of their bytes
(`bytes_lt_bytes_iff`), and their bytes are read back as the text (`decode?_encode`).
-/

namespace KeyGloss

namespace Text

theorem decode?_encode (t : Text) : decode? (encode t) = some t := by
  have valid : (String.ofList t).toUTF8.IsValidUTF8 := (String.ofList t).isValidUTF8
  have same : String.fromUTF8 (String.ofList t).toUTF8 valid = String.ofList t := rfl
  rw [decode?, encode, String.fromUTF8?, dif_pos valid, same, Option.map_some, String.toList_ofList]

theorem bytes_eq_flatMap (t : Text) : t.bytes = t.flatMap String.utf8EncodeChar := by
  change (t.flatMap String.utf8EncodeChar).toByteArray.data.toList = _
  rw [List.data_toByteArray]

theorem bytes_cons (c : Char) (t : Text) : bytes (c :: t) = String.utf8EncodeChar c ++ bytes t := by
  rw [bytes_eq_flatMap, bytes_eq_flatMap, List.flatMap_cons]

theorem cons_lt_of_byte {m n : Nat} {x y : List UInt8} (small : n < 256)
    (less : m < n ∨ m = n ∧ x < y) : UInt8.ofNat m :: x < UInt8.ofNat n :: y := by
  rw [List.cons_lt_cons_iff]
  rcases less with smaller | ⟨rfl, rest⟩
  · left
    rw [UInt8.lt_iff_toNat_lt, UInt8.toNat_ofNat', UInt8.toNat_ofNat']
    omega
  · exact .inr ⟨rfl, rest⟩

/-- The lowest `n` groups of six bits of a number, from the highest to the lowest, each as a byte that
follows a first one. -/
def groupBytes : Nat → Nat → List UInt8
  | 0, _ => []
  | n + 1, v => groupBytes n (v / 64) ++ [.ofNat (v % 64 + 128)]

/-- A number without its lowest `n` groups of six bits. -/
def upper : Nat → Nat → Nat
  | 0, v => v
  | n + 1, v => upper n (v / 64)

theorem groupBytes_append_lt {v w : Nat} (n : Nat) (less : v < w) (same : upper n v = upper n w)
    (x y : List UInt8) : groupBytes n v ++ x < groupBytes n w ++ y := by
  induction n generalizing v w x y with
  | zero => exact absurd same (Nat.ne_of_lt less)
  | succ n ih =>
    simp only [groupBytes, List.append_assoc]
    by_cases equal : v / 64 = w / 64
    · rw [equal]
      exact List.append_left_lt (cons_lt_of_byte (by omega) (.inl (by omega)))
    · exact ih (by omega) same _ _

/-- The first byte of the character with a code point, and how many groups of six bits follow it. -/
def leading (v : Nat) : Nat × Nat :=
  if v ≤ 127 then (v, 0)
  else if v ≤ 2047 then (v / 64 % 32 + 192, 1)
  else if v ≤ 65535 then (v / 64 / 64 % 16 + 224, 2)
  else (v / 64 / 64 / 64 % 8 + 240, 3)

theorem utf8EncodeChar_eq (c : Char) :
    String.utf8EncodeChar c =
      .ofNat (leading c.val.toNat).1 :: groupBytes (leading c.val.toNat).2 c.val.toNat := by
  have twice (v : Nat) : v / 64 / 64 = v / 4096 := Nat.div_div_eq_div_mul v 64 64
  have thrice (v : Nat) : v / 4096 / 64 = v / 262144 := Nat.div_div_eq_div_mul v 4096 64
  unfold leading
  split
  · next one => exact if_pos one
  · next one =>
    refine (if_neg one).trans ?_
    split
    · rfl
    · split
      · rw [twice]
        rfl
      · simp only [groupBytes, twice, thrice, List.nil_append, List.cons_append]

/-- Of two code points, the larger one has the larger first byte, or the numbers differ in the groups that
follow alone. -/
theorem leading_lt {v w : Nat} (less : v < w) (bound : w < 0x110000) :
    (leading v).1 < (leading w).1 ∨
      leading v = leading w ∧ upper (leading v).2 v = upper (leading v).2 w := by
  unfold leading
  repeat' split
  all_goals simp only [Prod.mk.injEq, and_true, upper]
  all_goals omega

theorem leading_lt_256 (v : Nat) : (leading v).1 < 256 := by
  unfold leading
  repeat' split
  all_goals simp only
  all_goals omega

theorem utf8EncodeChar_append_lt {c d : Char} (less : c < d) (x y : List UInt8) :
    String.utf8EncodeChar c ++ x < String.utf8EncodeChar d ++ y := by
  have bound : d.val.toNat < 0x110000 := by
    have valid : d.val.toNat.isValidChar := d.valid
    unfold Nat.isValidChar at valid
    omega
  have less : c.val.toNat < d.val.toNat := less
  rw [utf8EncodeChar_eq, utf8EncodeChar_eq]
  refine cons_lt_of_byte (leading_lt_256 _) ?_
  rcases leading_lt less bound with smaller | ⟨same, above⟩
  · exact .inl smaller
  · rw [← same]
    exact .inr ⟨rfl, groupBytes_append_lt _ less above x y⟩

theorem bytes_lt_bytes {t u : Text} (less : t < u) : t.bytes < u.bytes := by
  induction t generalizing u with
  | nil =>
    cases u with
    | nil => cases less
    | cons d u =>
      rw [bytes_cons, utf8EncodeChar_eq]
      exact List.nil_lt_cons _ _
  | cons c t ih =>
    cases u with
    | nil => cases less
    | cons d u =>
      rw [bytes_cons, bytes_cons]
      rcases List.cons_lt_cons_iff.mp less with smaller | ⟨rfl, rest⟩
      · exact utf8EncodeChar_append_lt smaller _ _
      · exact List.append_left_lt (ih rest)

/-- Texts are in the order of their bytes. -/
theorem bytes_lt_bytes_iff {t u : Text} : t.bytes < u.bytes ↔ t < u := by
  refine ⟨fun less => ?_, bytes_lt_bytes⟩
  by_contra notLess
  by_cases greater : u < t
  · exact List.lt_irrefl _ (List.lt_trans less (bytes_lt_bytes greater))
  · obtain rfl : t = u := List.le_antisymm greater notLess
    exact List.lt_irrefl _ less

end Text

end KeyGloss
