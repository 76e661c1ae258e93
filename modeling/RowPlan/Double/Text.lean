import RowPlan.Double.Shortest

/-!
The two written forms of a double. Both give the shortest digits that read back; expressions never
use an exponent and leave whole numbers bare, row expressions mark whole numbers with `.0` and use
an exponent for very small and very large magnitudes.
-/

namespace RowPlan

/-- A choice of written form. -/
structure NumberStyle where
  /-- Whole numbers end in `.0`. -/
  marksWhole : Bool
  /-- Whether a number `0.d₁d₂… * 10 ^ point` is written without an exponent. -/
  isPositional : Int → Bool

/-- The form used in expressions. -/
def NumberStyle.expression : NumberStyle := ⟨false, fun _ => true⟩

/-- The form used in row expressions: an exponent below `10 ^ -4` and from `10 ^ 16` on. -/
def NumberStyle.row : NumberStyle := ⟨true, fun point => decide (-3 ≤ point ∧ point ≤ 16)⟩

namespace Decimal

/-- All places written out. -/
def positional (d : Decimal) (marksWhole : Bool) : List Char :=
  if d.point ≤ 0 then
    ['0', '.'] ++ List.replicate (-d.point).toNat '0' ++ d.digits
  else if d.digits.length ≤ d.point.toNat then
    d.digits ++ List.replicate (d.point.toNat - d.digits.length) '0' ++
      if marksWhole then ['.', '0'] else []
  else
    d.digits.take d.point.toNat ++ '.' :: d.digits.drop d.point.toNat

/-- One digit before the point, and an exponent. -/
def scientific (d : Decimal) : List Char :=
  let exponent := (toString (d.point - 1)).toList
  match d.digits with
  | [] => 'e' :: exponent
  | [c] => c :: 'e' :: exponent
  | c :: cs => c :: '.' :: cs ++ 'e' :: exponent

end Decimal

namespace Double

/-- The text of a magnitude. -/
def magnitudeText (style : NumberStyle) (d : Double) : List Char :=
  if d.isZero then
    if style.marksWhole then ['0', '.', '0'] else ['0']
  else if d.isFinite then
    let decimal := d.shortest
    if style.isPositional decimal.point then decimal.positional style.marksWhole
    else decimal.scientific
  else ['i', 'n', 'f']

/-- The text of a double. A NaN has no sign. -/
def text (style : NumberStyle) (d : Double) : List Char :=
  if d.isNaN then ['N', 'a', 'N']
  else if d.isNegative then '-' :: d.magnitudeText style
  else d.magnitudeText style

end Double

end RowPlan
