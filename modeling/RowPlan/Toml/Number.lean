import RowPlan.Double.Rounding
import RowPlan.Toml.Scan

/-!
Numbers of TOML. An integer has a sign and decimal digits, or `0x`, `0o` or `0b` and digits of that
base, and fits 64 bits. A float has a fraction or an exponent, or is `inf` or `nan`; one too large
for a double is refused. Single underscores may stand between digits, and a decimal number has no
superfluous zero in front.
-/

namespace RowPlan.Toml

/-- Digits after the first, where an underscore may stand before each. -/
def moreDigits (base : Nat) : List Char → List Nat × List Char
  | [] => ([], [])
  | '_' :: c :: cs =>
    match digit? base c with
    | some d =>
      let (ds, rest) := moreDigits base cs
      (d :: ds, rest)
    | none => ([], '_' :: c :: cs)
  | c :: cs =>
    match digit? base c with
    | some d =>
      let (ds, rest) := moreDigits base cs
      (d :: ds, rest)
    | none => ([], c :: cs)

/-- Digits, the first of which may be any. -/
def digits (base : Nat) : Scanner (List Nat)
  | [] => none
  | c :: cs => do
    let d ← digit? base c
    let (ds, rest) := moreDigits base cs
    return (d :: ds, rest)

/-- The digits of a decimal number: a zero alone, or digits that start with another one. -/
def decimalDigits : Scanner (List Nat)
  | '0' :: rest => some ([0], rest)
  | cs => digits 10 cs

/-- A sign, or nothing: whether it is a minus. -/
def sign : List Char → Bool × List Char
  | '-' :: rest => (true, rest)
  | '+' :: rest => (false, rest)
  | cs => (false, cs)

/-- The integer with a sign and a magnitude, if it fits 64 bits. -/
def int64? (negative : Bool) (magnitude : Nat) : Option Int64 :=
  let n : Int := if negative then -magnitude else magnitude
  if -2 ^ 63 ≤ n ∧ n < 2 ^ 63 then some (.ofInt n) else none

def integer : Scanner Int64 := fun cs => do
  let based (base : Nat) (cs : List Char) : Option (Int64 × List Char) := do
    let (ds, rest) ← digits base cs
    return (← int64? false (ofDigits base ds), rest)
  match cs with
  | '0' :: 'x' :: rest => based 16 rest
  | '0' :: 'o' :: rest => based 8 rest
  | '0' :: 'b' :: rest => based 2 rest
  | _ =>
    let (negative, cs) := sign cs
    let (ds, rest) ← decimalDigits cs
    return (← int64? negative (ofDigits 10 ds), rest)

/-- The digits after a point. -/
def fraction : Scanner (List Nat)
  | '.' :: rest => digits 10 rest
  | _ => none

/-- The number after an `e`. -/
def exponent : Scanner Int
  | c :: rest =>
    if c = 'e' ∨ c = 'E' then do
      let (negative, rest) := sign rest
      let (ds, rest) ← digits 10 rest
      let n : Int := ofDigits 10 ds
      return (if negative then -n else n, rest)
    else none
  | [] => none

/-- The same double, unless it is positive infinity: a number may not be too large, but too far below
zero it is negative infinity. -/
def finiteAbove? (d : Double) : Option Double :=
  if d = .ofMagnitude false Double.infinityBits then none else some d

def specialFloat (negative : Bool) : Scanner Double :=
  .orElse (word "inf" (.ofMagnitude negative Double.infinityBits))
    (word "nan" (.ofMagnitude negative (Double.infinityBits + 2 ^ 51)))

def float : Scanner Double := fun cs =>
  let (negative, cs) := sign cs
  match specialFloat negative cs with
  | some r => some r
  | none => do
    let (whole, cs) ← decimalDigits cs
    match fraction cs with
    | some (places, cs) =>
      let (e, rest) := (exponent cs).getD (0, cs)
      let d ← finiteAbove? (.ofDecimal negative (ofDigits 10 (whole ++ places)) (e - places.length))
      return (d, rest)
    | none =>
      let (e, rest) ← exponent cs
      return (← finiteAbove? (.ofDecimal negative (ofDigits 10 whole) e), rest)

end RowPlan.Toml
