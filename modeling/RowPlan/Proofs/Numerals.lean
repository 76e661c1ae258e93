import Mathlib.Algebra.Order.Field.Power
import Mathlib.Data.List.DropRight
import Mathlib.Data.Rat.Cast.Order
import Mathlib.Tactic.FieldSimp
import Mathlib.Tactic.NormNum
import Mathlib.Tactic.Positivity
import Mathlib.Tactic.Ring
import RowPlan.Double.Text
import RowPlan.Proofs.Spans

/-! Written numbers: digits before and after the point, and an exponent. The text of a number
determines all three, hence its value, and the text of a decimal is a number of that value. -/
namespace RowPlan

theorem toDigits_injective {a b : ℕ} (h : Nat.toDigits 10 a = Nat.toDigits 10 b) : a = b := by
  calc
    a = Nat.ofDigitChars 10 (Nat.toDigits 10 a) 0 := Nat.ofDigitChars_ten_toDigits.symm
    _ = Nat.ofDigitChars 10 (Nat.toDigits 10 b) 0 := by rw [h]
    _ = b := Nat.ofDigitChars_ten_toDigits

theorem isDigit_of_mem_toDigits {n : ℕ} {c : Char} (h : c ∈ Nat.toDigits 10 n) :
    c.isDigit = true :=
  Nat.isDigit_of_mem_toDigits (by decide) (by decide) h

theorem minus_ne_toDigits (n : ℕ) (r : List Char) : '-' :: r ≠ Nat.toDigits 10 n := by
  intro h
  have hminus : '-' ∈ Nat.toDigits 10 n := h ▸ List.mem_cons_self
  exact absurd (isDigit_of_mem_toDigits hminus) (by decide)

theorem toList_toString_nat (n : ℕ) : (toString n).toList = Nat.toDigits 10 n := by
  rw [Nat.toString_eq_repr, Nat.repr_eq_ofList_toDigits, String.toList_ofList]

/-- The text of an integer. -/
theorem toList_toString_int (a : ℤ) :
    (toString a).toList =
      if a < 0 then '-' :: Nat.toDigits 10 a.natAbs else Nat.toDigits 10 a.natAbs := by
  rw [Int.toString_eq_repr, Int.repr_eq_if]
  by_cases h : 0 ≤ a
  · have hneg : ¬ a < 0 := by omega
    have habs : a.toNat = a.natAbs := by omega
    rw [if_pos h, if_neg hneg, habs, Nat.repr_eq_ofList_toDigits, String.toList_ofList]
  · have hneg : a < 0 := by omega
    have habs : (-a).toNat = a.natAbs := by omega
    rw [if_neg h, if_pos hneg, habs, String.toList_append, Nat.repr_eq_ofList_toDigits,
      String.toList_ofList, String.toList_ofList, List.singleton_append]

theorem toList_toString_int_injective {a b : ℤ} (h : (toString a).toList = (toString b).toList) :
    a = b := by
  rw [toList_toString_int, toList_toString_int] at h
  split at h <;> split at h
  · have habs := toDigits_injective (List.cons.inj h).2
    omega
  · exact absurd h (minus_ne_toDigits _ _)
  · exact absurd h.symm (minus_ne_toDigits _ _)
  · have habs := toDigits_injective h
    omega

theorem mem_toString_int {a : ℤ} {c : Char} (h : c ∈ (toString a).toList) :
    c.isDigit = true ∨ c = '-' := by
  rw [toList_toString_int] at h
  split at h
  · rcases List.mem_cons.mp h with rfl | h
    · exact Or.inr rfl
    · exact Or.inl (isDigit_of_mem_toDigits h)
  · exact Or.inl (isDigit_of_mem_toDigits h)

theorem exists_digit_toString_int (a : ℤ) : ∃ c ∈ (toString a).toList, c.isDigit = true := by
  have hdigits : Nat.toDigits 10 a.natAbs ≠ [] := Nat.toDigits_ne_nil
  obtain ⟨c, hc⟩ := List.exists_mem_of_ne_nil _ hdigits
  refine ⟨c, ?_, isDigit_of_mem_toDigits hc⟩
  rw [toList_toString_int]
  split
  · exact List.mem_cons_of_mem _ hc
  · exact hc

/-- A written number. Something after the digits in front always tells it from an integer. -/
structure Numeral where
  whole : List Char
  fraction : List Char
  exponent : Option Int
  whole_digits : ∀ c ∈ whole, c.isDigit = true
  fraction_digits : ∀ c ∈ fraction, c.isDigit = true
  whole_ne_nil : whole ≠ []
  marked : fraction ≠ [] ∨ exponent ≠ none

namespace Numeral

def exponentText : Option Int → List Char
  | none => []
  | some e => 'e' :: (toString e).toList

def fractionText (fraction : List Char) : List Char :=
  if fraction = [] then [] else '.' :: fraction

def text (n : Numeral) : List Char :=
  n.whole ++ (fractionText n.fraction ++ exponentText n.exponent)

def value (n : Numeral) : ℚ :=
  Nat.ofDigitChars 10 (n.whole ++ n.fraction) 0 * 10 ^ (n.exponent.getD 0 - n.fraction.length)

theorem stops_exponentText (e : Option Int) : Stops Char.isDigit (exponentText e) := by
  cases e with
  | none => exact stops_nil _
  | some e => exact stops_cons rfl _

theorem stops_fractionText (fraction : List Char) (e : Option Int) :
    Stops Char.isDigit (fractionText fraction ++ exponentText e) := by
  unfold fractionText
  split
  · exact stops_exponentText e
  · exact stops_cons rfl _

theorem exponentText_injective {e e' : Option Int} (h : exponentText e = exponentText e') :
    e = e' := by
  cases e with
  | none =>
    cases e' with
    | none => rfl
    | some e' => cases h
  | some e =>
    cases e' with
    | none => cases h
    | some e' =>
      rw [toList_toString_int_injective (List.cons.inj h).2]

theorem exponentText_ne_point (e : Option Int) (r : List Char) : exponentText e ≠ '.' :: r := by
  cases e with
  | none => exact nofun
  | some e =>
    intro h
    exact absurd (List.cons.inj h).1 (by decide)

/-- The point tells whether there is a fraction, and the digits behind it which one. -/
theorem fraction_exponent_inj {f f' : List Char} {e e' : Option Int}
    (hf : ∀ c ∈ f, c.isDigit = true) (hf' : ∀ c ∈ f', c.isDigit = true)
    (h : fractionText f ++ exponentText e = fractionText f' ++ exponentText e') :
    f = f' ∧ e = e' := by
  unfold fractionText at h
  split at h
  · case isTrue hnil =>
    split at h
    · case isTrue hnil' => exact ⟨hnil.trans hnil'.symm, exponentText_injective h⟩
    · exact absurd h (exponentText_ne_point _ _)
  · split at h
    · exact absurd h.symm (exponentText_ne_point _ _)
    · obtain ⟨-, hrest⟩ := List.cons.inj h
      obtain ⟨hfraction, hexponent⟩ :=
        Stops.append_inj hf hf' (stops_exponentText _) (stops_exponentText _) hrest
      exact ⟨hfraction, exponentText_injective hexponent⟩

/-- The text of a written number determines its value. -/
theorem value_eq_of_text_eq {n m : Numeral} (h : n.text = m.text) : n.value = m.value := by
  obtain ⟨hwhole, hrest⟩ := Stops.append_inj n.whole_digits m.whole_digits
    (stops_fractionText _ _) (stops_fractionText _ _) h
  obtain ⟨hfraction, hexponent⟩ :=
    fraction_exponent_inj n.fraction_digits m.fraction_digits hrest
  rw [value, value, hwhole, hfraction, hexponent]

theorem exists_text_eq_cons (n : Numeral) : ∃ c r, n.text = c :: r ∧ c.isDigit = true := by
  obtain ⟨c, cs, hwhole⟩ := List.exists_cons_of_ne_nil n.whole_ne_nil
  refine ⟨c, cs ++ (fractionText n.fraction ++ exponentText n.exponent), ?_, ?_⟩
  · rw [text, hwhole, List.cons_append]
  · apply n.whole_digits
    rw [hwhole]
    exact List.mem_cons_self

theorem mem_text {n : Numeral} {c : Char} (h : c ∈ n.text) :
    c.isDigit = true ∨ c = '.' ∨ c = 'e' ∨ c = '-' := by
  rcases List.mem_append.mp h with h | h
  · exact Or.inl (n.whole_digits c h)
  · rcases List.mem_append.mp h with h | h
    · unfold fractionText at h
      split at h
      · cases h
      · rcases List.mem_cons.mp h with rfl | h
        · exact Or.inr (Or.inl rfl)
        · exact Or.inl (n.fraction_digits c h)
    · cases he : n.exponent with
      | none =>
        rw [he] at h
        cases h
      | some e =>
        rw [he] at h
        rcases List.mem_cons.mp h with rfl | h
        · exact Or.inr (Or.inr (Or.inl rfl))
        · rcases mem_toString_int h with h | h
          · exact Or.inl h
          · exact Or.inr (Or.inr (Or.inr h))

theorem point_or_exponent_mem_text (n : Numeral) : '.' ∈ n.text ∨ 'e' ∈ n.text := by
  unfold text
  rcases n.marked with h | h
  · left
    rw [fractionText, if_neg h]
    simp
  · right
    obtain ⟨e, he⟩ := Option.ne_none_iff_exists'.mp h
    simp [he, exponentText]

end Numeral

namespace Decimal

def value (x : Decimal) : ℚ :=
  Nat.ofDigitChars 10 x.digits 0 * 10 ^ (x.point - x.digits.length)

theorem ofDigitChars_append_zeros (ds : List Char) (k : ℕ) :
    Nat.ofDigitChars 10 (ds ++ List.replicate k '0') 0 = Nat.ofDigitChars 10 ds 0 * 10 ^ k := by
  rw [Nat.ofDigitChars_append, Nat.ofDigitChars_replicate_zero, Nat.mul_comm]

/-- What is cut off at the end are zeros. -/
theorem exists_toDigits_eq (coefficient : ℕ) (exponent : ℤ) :
    ∃ k, Nat.toDigits 10 coefficient =
      (ofScaled coefficient exponent).digits ++ List.replicate k '0' := by
  have hzeros : ∀ c ∈ (Nat.toDigits 10 coefficient).rtakeWhile (· == '0'), c = '0' := by
    intro c hc
    have hzero := List.mem_rtakeWhile_imp hc
    exact beq_iff_eq.mp hzero
  refine ⟨((Nat.toDigits 10 coefficient).rtakeWhile (· == '0')).length, ?_⟩
  rw [← List.eq_replicate_of_mem hzeros]
  exact List.rdropWhile_append_rtakeWhile.symm

theorem isDigit_of_mem_ofScaled (coefficient : ℕ) (exponent : ℤ) :
    ∀ c ∈ (ofScaled coefficient exponent).digits, c.isDigit = true := by
  intro c hc
  obtain ⟨k, hk⟩ := exists_toDigits_eq coefficient exponent
  apply isDigit_of_mem_toDigits
  rw [hk]
  exact List.mem_append_left _ hc

theorem value_ofScaled (coefficient : ℕ) (exponent : ℤ) :
    (ofScaled coefficient exponent).value = coefficient * 10 ^ exponent := by
  obtain ⟨k, hk⟩ := exists_toDigits_eq coefficient exponent
  have hlength : (Nat.toDigits 10 coefficient).length =
      (ofScaled coefficient exponent).digits.length + k := by
    rw [hk, List.length_append, List.length_replicate]
  have hcoefficient : coefficient =
      Nat.ofDigitChars 10 (ofScaled coefficient exponent).digits 0 * 10 ^ k := by
    rw [← ofDigitChars_append_zeros, ← hk, Nat.ofDigitChars_ten_toDigits]
  have hpoint : (ofScaled coefficient exponent).point -
      (ofScaled coefficient exponent).digits.length = k + exponent := by
    change exponent + (Nat.toDigits 10 coefficient).length - _ = _
    rw [hlength]
    push_cast
    ring
  rw [value, hpoint, zpow_add₀ (by norm_num), zpow_natCast, ← mul_assoc]
  congr 1
  exact_mod_cast hcoefficient.symm

theorem isDigit_of_mem_zero : ∀ c ∈ ['0'], c.isDigit = true := List.all_eq_true.mp rfl

theorem isDigit_of_mem_zeros {k : ℕ} {c : Char} (h : c ∈ List.replicate k '0') :
    c.isDigit = true := by
  rw [List.eq_of_mem_replicate h]
  rfl

/-- The text is a written number, of the same value as the decimal. -/
def IsWritten (x : Decimal) (text : List Char) : Prop :=
  ∃ n : Numeral, text = n.text ∧ n.value = x.value

section
variable {x : Decimal} (hdigits : ∀ c ∈ x.digits, c.isDigit = true) (hne : x.digits ≠ [])
include hdigits hne

theorem isWritten_below_one (hpoint : x.point ≤ 0) : x.IsWritten (x.positional true) := by
  let zeros := List.replicate (-x.point).toNat '0'
  have hfraction : ∀ c ∈ zeros ++ x.digits, c.isDigit = true := by
    intro c hc
    rcases List.mem_append.mp hc with hc | hc
    · exact isDigit_of_mem_zeros hc
    · exact hdigits c hc
  refine ⟨⟨['0'], zeros ++ x.digits, none, isDigit_of_mem_zero, hfraction, by simp, by simp [hne]⟩,
    ?_, ?_⟩
  · simp [positional, hpoint, Numeral.text, Numeral.fractionText, Numeral.exponentText, hne, zeros]
  · -- The zeros in front add nothing to the coefficient, and the point is as many places away.
    have hcoefficient : Nat.ofDigitChars 10 (['0'] ++ (zeros ++ x.digits)) 0 =
        Nat.ofDigitChars 10 x.digits 0 := by
      rw [Nat.ofDigitChars_append, Nat.ofDigitChars_append, Nat.ofDigitChars_replicate_zero]
      rfl
    have hexponent : (none : Option ℤ).getD 0 - (zeros ++ x.digits).length =
        x.point - x.digits.length := by
      rw [List.length_append, List.length_replicate, Option.getD_none]
      omega
    simp only [Numeral.value, value, hcoefficient, hexponent]

theorem isWritten_whole (hpoint : 0 < x.point) (hlength : x.digits.length ≤ x.point.toNat) :
    x.IsWritten (x.positional true) := by
  let zeros := List.replicate (x.point.toNat - x.digits.length) '0'
  have hwhole : ∀ c ∈ x.digits ++ zeros, c.isDigit = true := by
    intro c hc
    rcases List.mem_append.mp hc with hc | hc
    · exact hdigits c hc
    · exact isDigit_of_mem_zeros hc
  have hpoint' : ¬ x.point ≤ 0 := by omega
  refine ⟨⟨x.digits ++ zeros, ['0'], none, hwhole, isDigit_of_mem_zero, by simp [hne], by simp⟩,
    ?_, ?_⟩
  · simp [positional, hpoint', hlength, Numeral.text, Numeral.fractionText, Numeral.exponentText,
      zeros]
  · have hzeros : x.digits ++ zeros ++ ['0'] =
        x.digits ++ List.replicate (x.point.toNat - x.digits.length + 1) '0' := by
      rw [List.append_assoc, List.replicate_succ']
    have hexponent : x.point - x.digits.length =
        ((x.point.toNat - x.digits.length + 1 : ℕ) : ℤ) + -1 := by
      omega
    simp only [Numeral.value, value, hzeros, ofDigitChars_append_zeros, hexponent]
    rw [zpow_add₀ (by norm_num), zpow_natCast, ← mul_assoc]
    push_cast
    rfl

theorem isWritten_split (hpoint : 0 < x.point) (hlength : x.point.toNat < x.digits.length) :
    x.IsWritten (x.positional true) := by
  have hwhole : ∀ c ∈ x.digits.take x.point.toNat, c.isDigit = true :=
    fun c hc => hdigits c (List.mem_of_mem_take hc)
  have hfraction : ∀ c ∈ x.digits.drop x.point.toNat, c.isDigit = true :=
    fun c hc => hdigits c (List.mem_of_mem_drop hc)
  have hwholene : x.digits.take x.point.toNat ≠ [] := by
    rw [Ne, List.take_eq_nil_iff]
    rintro (hzero | hnil)
    · omega
    · exact hne hnil
  have hfractionne : x.digits.drop x.point.toNat ≠ [] := by
    rw [Ne, List.drop_eq_nil_iff]
    omega
  have hpoint' : ¬ x.point ≤ 0 := by omega
  have hlength' : ¬ x.digits.length ≤ x.point.toNat := by omega
  refine ⟨⟨_, _, none, hwhole, hfraction, hwholene, Or.inl hfractionne⟩, ?_, ?_⟩
  · rw [positional, if_neg hpoint', if_neg hlength', Numeral.text, Numeral.fractionText,
      if_neg hfractionne, Numeral.exponentText, List.append_nil]
  · have hexponent : (none : Option ℤ).getD 0 - (x.digits.drop x.point.toNat).length =
        x.point - x.digits.length := by
      rw [List.length_drop, Option.getD_none]
      omega
    simp only [Numeral.value, value, List.take_append_drop, hexponent]

theorem isWritten_scientific : x.IsWritten x.scientific := by
  obtain ⟨digits, point⟩ := x
  obtain ⟨c, cs, rfl⟩ := List.exists_cons_of_ne_nil hne
  have hwhole : ∀ d ∈ [c], d.isDigit = true := by
    intro d hd
    rw [List.mem_singleton.mp hd]
    exact hdigits c List.mem_cons_self
  have hfraction : ∀ d ∈ cs, d.isDigit = true :=
    fun d hd => hdigits d (List.mem_cons_of_mem c hd)
  refine ⟨⟨[c], cs, some (point - 1), hwhole, hfraction, by simp, by simp⟩, ?_, ?_⟩
  · cases cs with
    | nil => rfl
    | cons d ds => simp [scientific, Numeral.text, Numeral.fractionText, Numeral.exponentText]
  · have hexponent : (some (point - 1)).getD 0 - cs.length = point - (c :: cs).length := by
      rw [Option.getD_some, List.length_cons]
      omega
    simp only [Numeral.value, value, List.singleton_append, hexponent]

theorem isWritten_positional : x.IsWritten (x.positional true) := by
  rcases Int.lt_or_le 0 x.point with hpoint | hpoint
  · rcases Nat.lt_or_ge x.point.toNat x.digits.length with hlength | hlength
    · exact isWritten_split hdigits hne hpoint hlength
    · exact isWritten_whole hdigits hne hpoint hlength
  · exact isWritten_below_one hdigits hne hpoint

end
end Decimal
end RowPlan
