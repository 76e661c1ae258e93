import RowPlan.Double.Rounding

/-!
Literal values. Expressions and row expressions share five kinds of literal and differ in the sixth,
the enumerated values: `Literal Symbol` in the one, `Literal Flag` in the other.
-/

namespace RowPlan

/-- A literal value, with enumerated values from `σ`. -/
inductive Literal (σ : Type) where
  | null
  | boolean (b : Bool)
  | integer (n : Int64)
  | double (d : Double)
  | string (s : String)
  | symbol (s : σ)
  deriving DecidableEq

namespace Literal

variable {σ τ : Type}

def isNull : Literal σ → Bool
  | null => true
  | _ => false

def boolean? : Literal σ → Option Bool
  | boolean b => some b
  | _ => none

def integer? : Literal σ → Option Int64
  | integer n => some n
  | _ => none

/-- An integer also reads as the double nearest to it. -/
def double? : Literal σ → Option Double
  | double d => some d
  | integer n => some (.ofInt n.toInt)
  | _ => none

def string? : Literal σ → Option String
  | string s => some s
  | _ => none

def symbol? : Literal σ → Option σ
  | symbol s => some s
  | _ => none

/-- The literal with its enumerated value, if it is one, sent through `f`. -/
def map (f : σ → τ) : Literal σ → Literal τ
  | null => null
  | boolean b => boolean b
  | integer n => integer n
  | double d => double d
  | string s => string s
  | symbol s => symbol (f s)

/-- Equality of kinds and values, doubles being compared as numbers. -/
def sameValue [DecidableEq σ] : Literal σ → Literal σ → Bool
  | double d, double e => d.sameValue e
  | v, w => decide (v = w)

end Literal

end RowPlan
