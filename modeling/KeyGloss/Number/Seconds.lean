import KeyGloss.Number.Binary
import KeyGloss.Text.Basic

/-!
# Seconds

The text of a duration in seconds: whole seconds and the fraction are taken in single
precision, added in single precision, and the sum is written with the fewest digits that
read back, without an exponent.
-/

namespace KeyGloss

namespace Decimal

/-- A decimal without an exponent and without a point where it is whole. -/
def positional (d : Decimal) : Text :=
  let digits := Nat.toDigits 10 d.digits
  match d.exponent with
  | .ofNat k => if d.digits = 0 then digits else digits ++ List.replicate k '0'
  | .negSucc k =>
    let places := k + 1
    if places < digits.length then
      digits.take (digits.length - places) ++ '.' :: digits.drop (digits.length - places)
    else '0' :: '.' :: List.replicate (places - digits.length) '0' ++ digits

end Decimal

namespace Seconds

/-- A quotient rounded to single precision. -/
def single (q : Quotient) : Quotient :=
  match Binary.round? .single q with
  | some b => b.value
  | none => ⟨0, 1⟩

/-- The text of a number of milliseconds as seconds. -/
def ofMilliseconds (milliseconds : Nat) : Text :=
  let whole := single ⟨milliseconds / 1000, 1⟩
  let nanoseconds := single ⟨milliseconds % 1000 * 1000000, 1⟩
  let fraction := single (nanoseconds.mul ⟨1, 1000000000⟩)
  match Binary.round? .single (whole.add fraction) with
  | some b => (Decimal.shortest .single b).positional
  | none => []

end Seconds

end KeyGloss
