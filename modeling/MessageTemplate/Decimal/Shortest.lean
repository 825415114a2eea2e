/-! # The shortest decimal that reads back

A finite double is a point `mantissa * 2 ^ exponent`, and the reals that round to it form an
interval around it. Its shortest decimal is the one with the fewest digits in that interval, and
of those the one nearest to the point. The search is exact arithmetic on natural numbers. -/

namespace MessageTemplate.Decimal

/-- A decimal number `digits * 10 ^ exponent`. -/
structure Scaled where
  digits : Nat
  exponent : Int
  deriving DecidableEq, Repr

/-- A number `mantissa * 2 ^ exponent`. -/
structure Dyadic where
  mantissa : Nat
  exponent : Int
  deriving DecidableEq, Repr

/-- The least mantissa of a normal double: fifty-two bits after the leading one. -/
def leastMantissa : Nat := 0x10000000000000

/-- The absolute value of the finite double with these bits. -/
def Dyadic.ofBits (bits : UInt64) : Dyadic :=
  let fraction : Nat := bits.toNat % leastMantissa
  let biased : Nat := bits.toNat / leastMantissa % 0x800
  if biased = 0 then ⟨fraction, -1074⟩ else ⟨leastMantissa + fraction, (biased : Int) - 1075⟩

/-- The numbers that round to a double: from `low / unit` over `point / unit` to `high / unit`,
with the ends if the interval is closed. -/
structure Rounding where
  low : Nat
  point : Nat
  high : Nat
  unit : Nat
  closed : Bool

/-- The interval of a double. The gap below a power of two is half the gap above it. A half-way
point rounds to the even mantissa, so that the ends belong to an even one. -/
def Dyadic.rounding (x : Dyadic) : Rounding :=
  let below := if x.mantissa = leastMantissa && x.exponent > -1074 then 1 else 2
  let scale := Nat.pow 2 (x.exponent - 2).toNat
  { low := (4 * x.mantissa - below) * scale
    point := 4 * x.mantissa * scale
    high := (4 * x.mantissa + 2) * scale
    unit := Nat.pow 2 (2 - x.exponent).toNat
    closed := x.mantissa % 2 = 0 }

/-- The greatest exponent whose power of ten is at most the point. -/
def Rounding.magnitude (r : Rounding) : Int :=
  if r.unit ≤ r.point then (Nat.toDigits 10 (r.point / r.unit)).length - 1
  else -(Nat.toDigits 10 ((r.unit + r.point - 1) / r.point - 1)).length

/-- The multiple of `10 ^ exponent` in the interval that is nearest to the point, if there is
one. It is one of the two multiples next to the point; a tie goes to the even multiple. -/
def Rounding.onGrid? (r : Rounding) (exponent : Int) : Option Nat :=
  let up := Nat.pow 10 (-exponent).toNat
  let step := r.unit * Nat.pow 10 exponent.toNat
  let point := r.point * up
  let lower := point / step
  let upper := lower + 1
  let inside (left right : Nat) : Bool := if r.closed then left ≤ right else left < right
  let lowerFits := inside (r.low * up) (lower * step)
  let upperFits := inside (upper * step) (r.high * up)
  let lowerGap := point - lower * step
  let upperGap := upper * step - point
  let lowerWins := lowerGap < upperGap || (lowerGap = upperGap && lower % 2 = 0)
  match lowerFits, upperFits with
  | true, true => some (if lowerWins then lower else upper)
  | true, false => some lower
  | false, true => some upper
  | false, false => none

/-- Moves factors of ten from the digits into the exponent. -/
def Scaled.strip : Nat → Scaled → Scaled
  | 0, x => x
  | fuel + 1, x =>
    if x.digits ≠ 0 && x.digits % 10 = 0 then strip fuel ⟨x.digits / 10, x.exponent + 1⟩ else x

/-- Tries grids of one digit and more, up to seventeen, which always suffice. -/
def Rounding.shortest (r : Rounding) : Scaled :=
  let magnitude := r.magnitude
  let hit := (List.range 17).findSome? fun (count : Nat) =>
    let exponent := magnitude - count
    (r.onGrid? exponent).map fun digits => Scaled.mk digits exponent
  (hit.getD ⟨0, 0⟩).strip 18

/-- The shortest decimal of a finite double other than zero, sign left out. -/
def shortest (x : Float) : Scaled :=
  (Dyadic.ofBits x.toBits).rounding.shortest

end MessageTemplate.Decimal
