import Mathlib.Tactic.Linarith
import RowPlan.Proofs.Numerals

/-! The numbers that round to a double. The test of the search for digits is the one of lying in
this interval, the search ends inside it, and no two doubles share a number unless they differ in
sign alone. -/
namespace RowPlan

namespace Interval

/-- The numbers between the ends. The ends themselves belong to them if the interval is closed. -/
def Holds (i : Interval) (q : ℚ) : Prop :=
  if i.closed then (i.low : ℚ) / i.denominator ≤ q ∧ q ≤ (i.high : ℚ) / i.denominator
  else (i.low : ℚ) / i.denominator < q ∧ q < (i.high : ℚ) / i.denominator

theorem holds_of_lt {i : Interval} {q : ℚ} (hlow : (i.low : ℚ) / i.denominator < q)
    (hhigh : q < (i.high : ℚ) / i.denominator) : i.Holds q := by
  unfold Holds
  split
  · exact ⟨hlow.le, hhigh.le⟩
  · exact ⟨hlow, hhigh⟩

theorem Holds.between {i : Interval} {q : ℚ} (h : i.Holds q) :
    (i.low : ℚ) / i.denominator ≤ q ∧ q ≤ (i.high : ℚ) / i.denominator := by
  unfold Holds at h
  split at h
  · exact h
  · exact ⟨h.1.le, h.2.le⟩

theorem ten_zpow_mul (k : ℤ) : (10 : ℚ) ^ k * 10 ^ (-k).toNat = 10 ^ k.toNat := by
  rw [← zpow_natCast, ← zpow_natCast, ← zpow_add₀ (by norm_num)]
  congr 1
  omega

section
variable {d : ℕ} (hd : 0 < d) (k : ℤ) (a c : ℕ)
include hd

/-- Multiplied out by a common factor, bounds and decimals are natural numbers. -/
theorem bound_scaled : ((a * 10 ^ (-k).toNat : ℕ) : ℚ) = (a : ℚ) / d * (10 ^ (-k).toNat * d) := by
  have hdq : (0 : ℚ) < d := by exact_mod_cast hd
  push_cast
  field_simp

omit hd in
theorem decimal_scaled :
    ((c * 10 ^ k.toNat * d : ℕ) : ℚ) = c * 10 ^ k * (10 ^ (-k).toNat * d) := by
  push_cast
  rw [← ten_zpow_mul k]
  ring

theorem bound_le_decimal_iff :
    a * 10 ^ (-k).toNat ≤ c * 10 ^ k.toNat * d ↔ (a : ℚ) / d ≤ c * 10 ^ k := by
  have hdq : (0 : ℚ) < d := by exact_mod_cast hd
  rw [← Nat.cast_le (α := ℚ), bound_scaled hd, decimal_scaled,
    mul_le_mul_iff_left₀ (by positivity)]

theorem decimal_le_bound_iff :
    c * 10 ^ k.toNat * d ≤ a * 10 ^ (-k).toNat ↔ (c : ℚ) * 10 ^ k ≤ a / d := by
  have hdq : (0 : ℚ) < d := by exact_mod_cast hd
  rw [← Nat.cast_le (α := ℚ), bound_scaled hd, decimal_scaled,
    mul_le_mul_iff_left₀ (by positivity)]

end

theorem contains_iff {i : Interval} (hd : 0 < i.denominator) (coefficient : ℕ) (exponent : ℤ) :
    i.contains coefficient exponent = true ↔ i.Holds (coefficient * 10 ^ exponent) := by
  unfold contains Holds
  dsimp only
  split
  · rw [Bool.and_eq_true, decide_eq_true_iff, decide_eq_true_iff, bound_le_decimal_iff hd,
      decimal_le_bound_iff hd]
  · rw [Bool.and_eq_true, decide_eq_true_iff, decide_eq_true_iff, ← not_le, ← not_le,
      decimal_le_bound_iff hd, bound_le_decimal_iff hd, not_le, not_le]

theorem holds_of_neighbour? {i : Interval} (hd : 0 < i.denominator) {exponent : ℤ} {c : ℕ}
    (h : i.neighbour? exponent = some c) : i.Holds (c * 10 ^ exponent) := by
  rw [← contains_iff hd]
  unfold neighbour? at h
  dsimp only at h
  split at h
  · case h_1 hlower hupper =>
    split at h <;> cases h
    · exact hlower
    · exact hupper
  · case h_2 hlower hupper =>
    cases h
    exact hlower
  · case h_3 hlower hupper =>
    cases h
    exact hupper
  · cases h

/-- The value lies inside, and seventeen digits are fine enough to hit the inside. -/
structure Proper (i : Interval) : Prop where
  denominator_pos : 0 < i.denominator
  low_lt : i.low < i.value
  lt_high : i.value < i.high
  wide : i.value < 10 ^ 16 * (i.high - i.low)

/-- The number that the interval is about. -/
def number (i : Interval) : ℚ := (i.value : ℚ) / i.denominator

section
variable {i : Interval} (hi : i.Proper)
include hi

theorem low_lt_number : (i.low : ℚ) / i.denominator < i.number := by
  have hd : (0 : ℚ) < i.denominator := by exact_mod_cast hi.denominator_pos
  have hlow : (i.low : ℚ) < i.value := by exact_mod_cast hi.low_lt
  exact div_lt_div_of_pos_right hlow hd

theorem number_lt_high : i.number < (i.high : ℚ) / i.denominator := by
  have hd : (0 : ℚ) < i.denominator := by exact_mod_cast hi.denominator_pos
  have hhigh : (i.value : ℚ) < i.high := by exact_mod_cast hi.lt_high
  exact div_lt_div_of_pos_right hhigh hd

theorem number_lt_wide :
    i.number < 10 ^ 16 * ((i.high : ℚ) / i.denominator - (i.low : ℚ) / i.denominator) := by
  have hd : (0 : ℚ) < i.denominator := by exact_mod_cast hi.denominator_pos
  have hle : i.low ≤ i.high := (hi.low_lt.trans hi.lt_high).le
  have hwide : (i.value : ℚ) < 10 ^ 16 * (i.high - i.low) := by
    have h : ((i.value : ℕ) : ℚ) < ((10 ^ 16 * (i.high - i.low) : ℕ) : ℚ) := by
      exact_mod_cast hi.wide
    rwa [Nat.cast_mul, Nat.cast_sub hle, Nat.cast_pow, Nat.cast_ofNat] at h
  rw [number, ← sub_div, ← mul_div_assoc]
  exact div_lt_div_of_pos_right hwide hd

omit hi in
/-- The two neighbours of a fraction on the grid of multiples of `10 ^ k`. -/
theorem floor_decimal {d : ℕ} (hd : 0 < d) (a : ℕ) (k : ℤ) :
    let lower := a * 10 ^ (-k).toNat / (d * 10 ^ k.toNat)
    (lower : ℚ) * 10 ^ k ≤ a / d ∧ (a : ℚ) / d < (lower + 1 : ℕ) * 10 ^ k := by
  intro lower
  have hd' : 0 < d * 10 ^ k.toNat := by positivity
  constructor
  · rw [← decimal_le_bound_iff hd, mul_assoc, mul_comm (10 ^ k.toNat)]
    exact Nat.div_mul_le_self _ _
  · rw [← not_le, ← decimal_le_bound_iff hd, not_le, mul_assoc, mul_comm (10 ^ k.toNat),
      mul_comm (lower + 1)]
    exact Nat.lt_mul_div_succ _ hd'

/-- On a grid of seventeen places or more, one of the two neighbours of the number is a hit. -/
theorem exists_neighbour? {exponent : ℤ} (h : 10 ^ 16 * (10 : ℚ) ^ exponent ≤ i.number) :
    ∃ c, i.neighbour? exponent = some c := by
  have hd := hi.denominator_pos
  obtain ⟨hbelow, habove⟩ := floor_decimal hd i.value exponent
  cases hc : i.neighbour? exponent with
  | some c => exact ⟨c, rfl⟩
  | none =>
    exfalso
    unfold neighbour? at hc
    dsimp only at hc
    split at hc
    · cases hc
    · cases hc
    · cases hc
    · case h_4 hlower hupper =>
      -- Neighbours that both miss are a whole interval apart, which is more than the grid allows.
      have hlow : (i.value * 10 ^ (-exponent).toNat / (i.denominator * 10 ^ exponent.toNat) : ℕ) *
          (10 : ℚ) ^ exponent ≤ (i.low : ℚ) / i.denominator := by
        by_contra hlt
        have hholds := holds_of_lt (not_le.mp hlt) (hbelow.trans_lt (number_lt_high hi))
        rw [← contains_iff hd, hlower] at hholds
        exact Bool.false_ne_true hholds
      have hhigh : (i.high : ℚ) / i.denominator ≤
          (i.value * 10 ^ (-exponent).toNat / (i.denominator * 10 ^ exponent.toNat) + 1 : ℕ) *
            (10 : ℚ) ^ exponent := by
        by_contra hlt
        have hholds := holds_of_lt ((low_lt_number hi).trans habove) (not_le.mp hlt)
        rw [← contains_iff hd, hupper] at hholds
        exact Bool.false_ne_true hholds
      have hwide := number_lt_wide hi
      push_cast at hlow hhigh
      linarith

omit hi in
theorem pow_le_of_lt_length {n k : ℕ} (hn : 0 < n) (h : k < (Nat.toDigits 10 n).length) :
    10 ^ k ≤ n := by
  rcases Nat.eq_zero_or_pos k with rfl | hk
  · exact hn
  · rw [← not_lt, ← Nat.length_toDigits_le_iff (by decide) hk]
    omega

/-- The numbers of digits of the value and of the denominator tell the leading place but for one. -/
theorem leadingExponent_le : (10 : ℚ) ^ i.leadingExponent ≤ i.number := by
  have hd := hi.denominator_pos
  have hvalue : 0 < i.value := by have := hi.low_lt; omega
  unfold leadingExponent
  dsimp only
  split
  · case isTrue h =>
    have hle := (decimal_le_bound_iff hd _ i.value 1).mp (by rwa [one_mul, mul_comm])
    rwa [Nat.cast_one, one_mul] at hle
  · let v := (Nat.toDigits 10 i.value).length
    let d := (Nat.toDigits 10 i.denominator).length
    have hv : 0 < v := Nat.length_toDigits_pos
    have hlow : (10 : ℚ) ^ (v - 1) ≤ i.value := by
      exact_mod_cast pow_le_of_lt_length hvalue (Nat.sub_lt hv Nat.one_pos)
    have hhigh : (i.denominator : ℚ) ≤ 10 ^ d := by
      have hlt := (Nat.length_toDigits_le_iff (by decide) Nat.length_toDigits_pos).mp (le_refl d)
      exact_mod_cast hlt.le
    have hexponent : (v : ℤ) - d - 1 = (v - 1 : ℕ) - (d : ℤ) := by omega
    calc (10 : ℚ) ^ ((v : ℤ) - d - 1)
        = 10 ^ (v - 1) / 10 ^ d := by
          rw [hexponent, zpow_sub₀ (by norm_num), zpow_natCast, zpow_natCast]
      _ ≤ i.value / i.denominator :=
          div_le_div₀ (by positivity) hlow (by exact_mod_cast hd) hhigh

theorem holds_search (tries : ℕ) {exponent : ℤ}
    (h : 10 ^ 16 * (10 : ℚ) ^ (exponent - tries) ≤ i.number) :
    i.Holds (i.search (tries + 1) exponent).value := by
  induction tries generalizing exponent with
  | zero =>
    rw [Nat.cast_zero, Int.sub_zero] at h
    obtain ⟨c, hc⟩ := exists_neighbour? hi h
    rw [search, hc]
    dsimp only
    rw [Decimal.value_ofScaled]
    exact holds_of_neighbour? hi.denominator_pos hc
  | succ tries ih =>
    rw [search]
    cases hc : i.neighbour? exponent with
    | some c =>
      dsimp only
      rw [Decimal.value_ofScaled]
      exact holds_of_neighbour? hi.denominator_pos hc
    | none =>
      apply ih
      have hexponent : exponent - 1 - tries = exponent - (tries + 1 : ℕ) := by
        push_cast
        ring
      rwa [hexponent]

theorem holds_search_leadingExponent : i.Holds (i.search 17 i.leadingExponent).value := by
  apply holds_search hi 16
  have hsplit : (10 : ℚ) ^ 16 * 10 ^ (i.leadingExponent - (16 : ℕ)) = 10 ^ i.leadingExponent := by
    rw [← zpow_natCast, ← zpow_add₀ (by norm_num)]
    congr 1
    ring
  rw [hsplit]
  exact leadingExponent_le hi

end

theorem isDigit_of_mem_search (i : Interval) (tries : ℕ) (exponent : ℤ) :
    ∀ c ∈ (i.search tries exponent).digits, c.isDigit = true := by
  induction tries generalizing exponent with
  | zero => exact Decimal.isDigit_of_mem_ofScaled _ _
  | succ tries ih =>
    rw [search]
    split
    · exact Decimal.isDigit_of_mem_ofScaled _ _
    · exact ih _

end Interval
end RowPlan
