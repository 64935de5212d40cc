/-!
# Binary fractions

Numbers of the form m · 2^e with a bounded m, rounding of a quotient to the nearest
of them, and the shortest decimal that rounds back to one of them. All arithmetic is
exact on natural numbers.
-/

namespace KeyGloss

/-- Which binary fractions there are: m takes `precision` bits, and e lies between
the two bounds. -/
structure BinaryFormat where
  precision : Nat
  minExponent : Int
  maxExponent : Int
  deriving DecidableEq, Repr

namespace BinaryFormat

/-- Single precision: 24 bits. -/
def single : BinaryFormat := ⟨24, -149, 104⟩

/-- Double precision: 53 bits. -/
def double : BinaryFormat := ⟨53, -1074, 971⟩

end BinaryFormat

/-- A quotient of natural numbers. -/
structure Quotient where
  num : Nat
  den : Nat
  deriving DecidableEq, Repr

namespace Quotient

/-- The quotient `q · base ^ k`. -/
def scale (q : Quotient) (base : Nat) : Int → Quotient
  | .ofNat k => ⟨q.num * Nat.pow base k, q.den⟩
  | .negSucc k => ⟨q.num, q.den * Nat.pow base (k + 1)⟩

/-- The sum of two quotients. -/
def add (p q : Quotient) : Quotient := ⟨p.num * q.den + q.num * p.den, p.den * q.den⟩

/-- The product of two quotients. -/
def mul (p q : Quotient) : Quotient := ⟨p.num * q.num, p.den * q.den⟩

/-- Whether `p < q`. -/
def lt (p q : Quotient) : Bool := p.num * q.den < q.num * p.den

/-- Whether `p ≤ q`. -/
def le (p q : Quotient) : Bool := p.num * q.den ≤ q.num * p.den

/-- The nearest natural number; of two, the even one. -/
def nearest (q : Quotient) : Nat :=
  let whole := q.num / q.den
  let twice := 2 * (q.num % q.den)
  if twice < q.den || (twice == q.den && whole % 2 == 0) then whole else whole + 1

end Quotient

/-- The binary fraction `mantissa · 2 ^ exponent`. -/
structure Binary where
  mantissa : Nat
  exponent : Int
  deriving DecidableEq, Repr

namespace Binary

/-- The value of a binary fraction. -/
def value (b : Binary) : Quotient := (⟨b.mantissa, 1⟩ : Quotient).scale 2 b.exponent

/-- The exponent that gives a positive quotient's mantissa its full number of bits, or
the least exponent where that is larger. -/
def exponentOf (f : BinaryFormat) (q : Quotient) : Int :=
  let guess : Int := q.num.log2 - q.den.log2 - f.precision
  let full := if (q.scale 2 (-guess)).num / (q.scale 2 (-guess)).den < Nat.pow 2 f.precision
    then guess else guess + 1
  max full f.minExponent

/-- The binary fraction nearest to a quotient, of two the one with the even mantissa;
none when the quotient is too large. -/
def round? (f : BinaryFormat) (q : Quotient) : Option Binary :=
  if q.num = 0 then some ⟨0, f.minExponent⟩
  else
    let e := exponentOf f q
    let m := (q.scale 2 (-e)).nearest
    let b : Binary := if m = Nat.pow 2 f.precision then ⟨m / 2, e + 1⟩ else ⟨m, e⟩
    if f.maxExponent < b.exponent then none else some b

end Binary

/-- The number `digits · 10 ^ exponent`. -/
structure Decimal where
  digits : Nat
  exponent : Int
  deriving DecidableEq, Repr

namespace Decimal

/-- Whether a quotient rounds to `b`: it lies between the midpoints towards the
neighbours of `b`, ends included when the mantissa is even. -/
def roundsTo (f : BinaryFormat) (b : Binary) (q : Quotient) : Bool :=
  let lowest := b.mantissa == Nat.pow 2 (f.precision - 1) && f.minExponent < b.exponent
  let below : Quotient := if lowest then ⟨4 * b.mantissa - 1, 4⟩ else ⟨2 * b.mantissa - 1, 2⟩
  let above : Quotient := ⟨2 * b.mantissa + 1, 2⟩
  let low := below.scale 2 b.exponent
  let high := above.scale 2 b.exponent
  if b.mantissa % 2 == 0 then low.le q && q.le high else low.lt q && q.lt high

/-- The point of the grid of spacing `10 ^ k` that rounds to `b` and is nearest to it. -/
def onGrid? (f : BinaryFormat) (b : Binary) (k : Int) : Option Decimal :=
  let scaled := b.value.scale 10 (-k)
  let below := scaled.num / scaled.den
  let hits := fun n => 0 < n && roundsTo f b ((⟨n, 1⟩ : Quotient).scale 10 k)
  let near := scaled.nearest
  if hits near then some ⟨near, k⟩
  else if hits below then some ⟨below, k⟩
  else if hits (below + 1) then some ⟨below + 1, k⟩
  else none

/-- The first of the grids `10 ^ k`, `10 ^ (k - 1)`, … that holds a decimal for `b`. -/
def search (f : BinaryFormat) (b : Binary) (k : Int) : Nat → Decimal
  | 0 => ⟨0, 0⟩
  | fuel + 1 => (onGrid? f b k).getD (search f b (k - 1) fuel)

/-- An exponent `k` such that a positive quotient is below `10 ^ k`. -/
def magnitude (q : Quotient) : Int :=
  if q.den ≤ q.num then (Nat.toDigits 10 (q.num / q.den)).length
  else 1 - ((Nat.toDigits 10 (q.den / q.num)).length : Int)

/-- The decimal with the fewest digits that rounds to a positive `b`, and of those the
nearest to `b`. -/
def shortest (f : BinaryFormat) (b : Binary) : Decimal :=
  if b.mantissa = 0 then ⟨0, 0⟩ else search f b (magnitude b.value + 1) (f.precision + 4)

end Decimal

end KeyGloss
