import RowPlan.Double

/-!
The fewest decimal digits that read back as a given double.

The reals that round to a double form an interval around it, ends included when the significand is
even. On the grid of multiples of a power of ten only the two neighbours of the double need looking
at: if any point of the grid lies in the interval, one of them does. The first grid with a hit,
going from coarse to fine, gives the digits; of two hits the nearer is taken, and the upper one when
both are equally near.
-/

namespace RowPlan

/-- The number `0.d₁d₂… * 10 ^ point`. -/
structure Decimal where
  digits : List Char
  point : Int
  deriving DecidableEq

/-- The number `coefficient * 10 ^ exponent`, without trailing zeros among its digits. -/
def Decimal.ofScaled (coefficient : Nat) (exponent : Int) : Decimal :=
  let digits := Nat.toDigits 10 coefficient
  ⟨(digits.reverse.dropWhile (· == '0')).reverse, exponent + digits.length⟩

/-- Positive numbers `value` with the bounds between which all reals round to it, over one
denominator. -/
structure Interval where
  low : Nat
  value : Nat
  high : Nat
  denominator : Nat
  closed : Bool

namespace Interval

attribute [local instance (high)] instPowNat

/-- The interval of a finite double's magnitude. Below a power of two the doubles are twice as
dense, so the lower end is half as far as the upper one. -/
def ofDouble (d : Double) : Interval :=
  let s := d.significand
  let up := 2 ^ (d.scale - 2).toNat
  let below := if d.fractionField = 0 ∧ 1 < d.exponentField then 1 else 2
  { low := (4 * s - below) * up
    value := 4 * s * up
    high := (4 * s + 2) * up
    denominator := 2 ^ (2 - d.scale).toNat
    closed := s % 2 == 0 }

/-- Whether `coefficient * 10 ^ exponent` rounds to the value. -/
def contains (i : Interval) (coefficient : Nat) (exponent : Int) : Bool :=
  let point := coefficient * 10 ^ exponent.toNat * i.denominator
  let low := i.low * 10 ^ (-exponent).toNat
  let high := i.high * 10 ^ (-exponent).toNat
  if i.closed then low ≤ point && point ≤ high else low < point && point < high

/-- The multiple of `10 ^ exponent` next to the value that rounds to it, if there is one. -/
def neighbour? (i : Interval) (exponent : Int) : Option Nat :=
  let num := i.value * 10 ^ (-exponent).toNat
  let den := i.denominator * 10 ^ exponent.toNat
  let lower := num / den
  match i.contains lower exponent, i.contains (lower + 1) exponent with
  | true, true => some (if 2 * (num % den) < den then lower else lower + 1)
  | true, false => some lower
  | false, true => some (lower + 1)
  | false, false => none

/-- The exponent `k` with `10 ^ k ≤ value < 10 ^ (k + 1)`. -/
def leadingExponent (i : Interval) : Int :=
  let k : Int := ((Nat.toDigits 10 i.value).length : Int) - (Nat.toDigits 10 i.denominator).length
  if i.denominator * 10 ^ k.toNat ≤ i.value * 10 ^ (-k).toNat then k else k - 1

/-- The first hit on the grids `10 ^ exponent`, `10 ^ (exponent - 1)`, …, at most `tries` of
them. -/
def search (i : Interval) : (tries : Nat) → (exponent : Int) → Decimal
  | 0, exponent => .ofScaled (i.value * 10 ^ (-exponent).toNat / i.denominator) exponent
  | tries + 1, exponent =>
    match i.neighbour? exponent with
    | some c => .ofScaled c exponent
    | none => i.search tries (exponent - 1)

end Interval

/-- The shortest decimal that reads back as the magnitude of a finite, nonzero double. Seventeen
digits always suffice. -/
def Double.shortest (d : Double) : Decimal :=
  let i := Interval.ofDouble d
  i.search 17 i.leadingExponent

end RowPlan
