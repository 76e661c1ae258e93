import RowPlan.Arity
import RowPlan.Expr

/-! Arguments of the SQL/JSON functions. An accepted count fixes the positions of an argument list.
What a configuration argument holds is told by the literal that stands there: a symbol of one
enumeration, or a type. The accessors by which conversions read their arguments find the same. -/
namespace RowPlan

namespace Arity
variable {α : Type} {args : List α}

theorem two_or_three_arguments (h : (between 2 3).accepts args.length = true) :
    (∃ a b, args = [a, b]) ∨ ∃ a b c, args = [a, b, c] := by
  have hlength : args.length = 2 ∨ args.length = 3 := by
    simp only [accepts, Bool.and_eq_true, decide_eq_true_eq] at h
    omega
  rcases hlength with h | h
  · match args, h with
    | [a, b], _ => exact Or.inl ⟨a, b, rfl⟩
  · match args, h with
    | [a, b, c], _ => exact Or.inr ⟨a, b, c, rfl⟩

theorem five_arguments (h : (exactly 5).accepts args.length = true) :
    ∃ a b c d e, args = [a, b, c, d, e] := by
  have hlength : args.length = 5 := by simpa only [accepts, beq_iff_eq] using h
  match args, hlength with
  | [a, b, c, d, e], _ => exact ⟨a, b, c, d, e, rfl⟩

theorem seven_arguments (h : (exactly 7).accepts args.length = true) :
    ∃ a b c d e f g, args = [a, b, c, d, e, f, g] := by
  have hlength : args.length = 7 := by simpa only [accepts, beq_iff_eq] using h
  match args, hlength with
  | [a, b, c, d, e, f, g], _ => exact ⟨a, b, c, d, e, f, g, rfl⟩

end Arity

namespace Expr

def wrapper? : Expr → Option Symbol.Wrapper
  | literal (.symbol (.wrapper w)) => some w
  | _ => none

def queryFallback? : Expr → Option Symbol.QueryFallback
  | literal (.symbol (.queryFallback b)) => some b
  | _ => none

def valueFallback? : Expr → Option Symbol.ValueFallback
  | literal (.symbol (.valueFallback b)) => some b
  | _ => none

def existsFallback? : Expr → Option Symbol.ExistsFallback
  | literal (.symbol (.existsFallback b)) => some b
  | _ => none

def sqlType? : Expr → Option SqlType
  | type t => some t
  | _ => none

theorem wrapper?_eq_some_iff {e : Expr} {w : Symbol.Wrapper} :
    e.wrapper? = some w ↔ e = .literal (.symbol (.wrapper w)) := by
  unfold wrapper?
  split <;> simp_all

theorem queryFallback?_eq_some_iff {e : Expr} {b : Symbol.QueryFallback} :
    e.queryFallback? = some b ↔ e = .literal (.symbol (.queryFallback b)) := by
  unfold queryFallback?
  split <;> simp_all

theorem valueFallback?_eq_some_iff {e : Expr} {b : Symbol.ValueFallback} :
    e.valueFallback? = some b ↔ e = .literal (.symbol (.valueFallback b)) := by
  unfold valueFallback?
  split <;> simp_all

theorem existsFallback?_eq_some_iff {e : Expr} {b : Symbol.ExistsFallback} :
    e.existsFallback? = some b ↔ e = .literal (.symbol (.existsFallback b)) := by
  unfold existsFallback?
  split <;> simp_all

theorem sqlType?_eq_some_iff {e : Expr} {t : SqlType} : e.sqlType? = some t ↔ e = .type t := by
  unfold sqlType?
  split <;> simp_all

/-- An accessor of symbols finds something exactly in the literals of its own enumeration. -/
theorem symbol?_bind_eq_some_iff {α : Type} {read : Symbol → Option α} {symbol : α → Symbol}
    (hread : ∀ s a, read s = some a ↔ s = symbol a) {e : Expr} {a : α} :
    e.symbol?.bind read = some a ↔ e = .literal (.symbol (symbol a)) := by
  constructor
  · intro h
    obtain ⟨s, hs, hsa⟩ := Option.bind_eq_some_iff.mp h
    obtain ⟨value, hvalue, hs⟩ := Option.bind_eq_some_iff.mp hs
    have hsymbol : s = symbol a := (hread s a).mp hsa
    cases e <;> cases hvalue
    cases value <;> cases hs
    rw [hsymbol]
  · rintro rfl
    exact (hread (symbol a) a).mpr rfl

theorem symbol?_bind_wrapper? (e : Expr) : e.symbol?.bind Symbol.wrapper? = e.wrapper? := by
  have hread (s : Symbol) (w : Symbol.Wrapper) : s.wrapper? = some w ↔ s = .wrapper w := by
    cases s <;> simp [Symbol.wrapper?]
  exact Option.ext fun w => (symbol?_bind_eq_some_iff hread).trans wrapper?_eq_some_iff.symm

theorem symbol?_bind_queryFallback? (e : Expr) :
    e.symbol?.bind Symbol.queryFallback? = e.queryFallback? := by
  have hread (s : Symbol) (b : Symbol.QueryFallback) :
      s.queryFallback? = some b ↔ s = .queryFallback b := by
    cases s <;> simp [Symbol.queryFallback?]
  exact Option.ext fun b => (symbol?_bind_eq_some_iff hread).trans queryFallback?_eq_some_iff.symm

theorem symbol?_bind_valueFallback? (e : Expr) :
    e.symbol?.bind Symbol.valueFallback? = e.valueFallback? := by
  have hread (s : Symbol) (b : Symbol.ValueFallback) :
      s.valueFallback? = some b ↔ s = .valueFallback b := by
    cases s <;> simp [Symbol.valueFallback?]
  exact Option.ext fun b => (symbol?_bind_eq_some_iff hread).trans valueFallback?_eq_some_iff.symm

theorem symbol?_bind_existsFallback? (e : Expr) :
    e.symbol?.bind Symbol.existsFallback? = e.existsFallback? := by
  have hread (s : Symbol) (b : Symbol.ExistsFallback) :
      s.existsFallback? = some b ↔ s = .existsFallback b := by
    cases s <;> simp [Symbol.existsFallback?]
  exact Option.ext fun b => (symbol?_bind_eq_some_iff hread).trans existsFallback?_eq_some_iff.symm

theorem type?_eq_sqlType? (e : Expr) : e.type? = e.sqlType? := by
  cases e <;> rfl

section
variable {e e' : Expr} (h : e.symbol? = e'.symbol?)
include h

theorem wrapper?_congr : e.wrapper? = e'.wrapper? := by
  rw [← symbol?_bind_wrapper?, h, symbol?_bind_wrapper?]

theorem queryFallback?_congr : e.queryFallback? = e'.queryFallback? := by
  rw [← symbol?_bind_queryFallback?, h, symbol?_bind_queryFallback?]

theorem valueFallback?_congr : e.valueFallback? = e'.valueFallback? := by
  rw [← symbol?_bind_valueFallback?, h, symbol?_bind_valueFallback?]

theorem existsFallback?_congr : e.existsFallback? = e'.existsFallback? := by
  rw [← symbol?_bind_existsFallback?, h, symbol?_bind_existsFallback?]

end

end Expr

end RowPlan
