import RowPlan.Double

/-!
Rounding of exact numbers to doubles: the nearest double, a tie going to the even significand.

Within one binade the doubles are evenly spaced, so the work is one division of naturals rounded to
the nearest integer. The bits of a magnitude `s * 2 ^ e` with `2 ^ 52 ≤ s ≤ 2 ^ 53` are
`(e + 1074) * 2 ^ 52 + s`; a rounding up to `2 ^ 53` carries into the exponent by itself, and
anything from `2047 * 2 ^ 52` on is infinite.
-/

namespace RowPlan.Double

attribute [local instance (high)] instPowNat

/-- The bits of positive infinity. -/
def infinityBits : Nat := 2047 * 2 ^ 52

/-- `num / den` to the nearest integer, a tie going to the even one. -/
def divNearest (num den : Nat) : Nat :=
  let q := num / den
  let r := num % den
  if 2 * r < den ∨ (2 * r = den ∧ q % 2 = 0) then q else q + 1

/-- The exponent `k` with `2 ^ k ≤ num / den < 2 ^ (k + 1)`, both numbers being positive. -/
def floorLog2 (num den : Nat) : Int :=
  let k : Int := (num.log2 : Int) - den.log2
  if den * 2 ^ k.toNat ≤ num * 2 ^ (-k).toNat then k else k - 1

/-- The double nearest to `num / den`, with the given sign. -/
def ofRatio (negative : Bool) (num den : Nat) : Double :=
  if num = 0 then ofMagnitude negative 0
  else
    let e : Int := max (floorLog2 num den - 52) (-1074)
    let s := divNearest (num * 2 ^ (-e).toNat) (den * 2 ^ e.toNat)
    ofMagnitude negative (min ((e + 1074).toNat * 2 ^ 52 + s) infinityBits)

/-- The double nearest to an integer. -/
def ofInt (n : Int) : Double := ofRatio (decide (n < 0)) n.natAbs 1

/-- The double nearest to `coefficient * 10 ^ exponent`, with the given sign. The first two cases
decide numbers far outside the range of doubles without writing them out. -/
def ofDecimal (negative : Bool) (coefficient : Nat) (exponent : Int) : Double :=
  if coefficient = 0 ∨ (coefficient.log2 : Int) + 1 + 3 * exponent < -1100 then
    ofMagnitude negative 0
  else if 400 < exponent then ofMagnitude negative infinityBits
  else ofRatio negative (coefficient * 10 ^ exponent.toNat) (10 ^ (-exponent).toNat)

end RowPlan.Double
