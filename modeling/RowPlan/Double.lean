/-!
Double-precision numbers, held as their 64 bits: one sign bit, eleven exponent bits, 52 fraction
bits. Equality of the type is equality of bits; `sameValue` is the numeric comparison, in which a
NaN differs from itself and the two zeros agree.
-/

namespace RowPlan

-- Powers are those of the core library, also where another instance is in scope.
attribute [default_instance 20000] instPowNat

/-- A double-precision number, given by its bits. -/
structure Double where
  bits : UInt64
  deriving DecidableEq, Inhabited

namespace Double

/-- The sign bit. -/
def isNegative (d : Double) : Bool := decide (2 ^ 63 ≤ d.bits.toNat)

/-- The exponent field. -/
def exponentField (d : Double) : Nat := d.bits.toNat / 2 ^ 52 % 2 ^ 11

/-- The fraction field. -/
def fractionField (d : Double) : Nat := d.bits.toNat % 2 ^ 52

def isFinite (d : Double) : Bool := d.exponentField != 2047

def isNaN (d : Double) : Bool := d.exponentField == 2047 && d.fractionField != 0

def isZero (d : Double) : Bool := d.bits.toNat % 2 ^ 63 == 0

/-- A finite double is `significand * 2 ^ scale` in magnitude. -/
def significand (d : Double) : Nat :=
  if d.exponentField = 0 then d.fractionField else 2 ^ 52 + d.fractionField

/-- The power of two that goes with `significand`. -/
def scale (d : Double) : Int :=
  if d.exponentField = 0 then -1074 else d.exponentField - 1075

/-- Numeric equality: no NaN equals anything, and zero equals zero whatever the signs. -/
def sameValue (a b : Double) : Bool :=
  !a.isNaN && !b.isNaN && (a == b || (a.isZero && b.isZero))

/-- The double with the given sign whose magnitude has the bits `magnitude < 2 ^ 63`. -/
def ofMagnitude (negative : Bool) (magnitude : Nat) : Double :=
  ⟨UInt64.ofNat (if negative then 2 ^ 63 + magnitude else magnitude)⟩

end Double

end RowPlan
