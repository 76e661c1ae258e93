import Mathlib.Tactic.Tauto
import RowPlan.Proofs.RoundingInterval

/-! The text of a double in row expressions determines the double, but for NaNs, which all have one
text. The digits lie in the rounding interval, and the intervals of different magnitudes share no
number. -/
namespace RowPlan

namespace Double

theorem fractionField_lt (d : Double) : d.fractionField < 2 ^ 52 := Nat.mod_lt _ (by decide)

theorem significand_lt (d : Double) : d.significand < 2 ^ 53 := by
  have hfraction := d.fractionField_lt
  unfold significand
  split <;> omega

/-- The distance down to the lower end of the rounding interval, in quarters of the last place. -/
def below (d : Double) : ℕ := if d.fractionField = 0 ∧ 1 < d.exponentField then 1 else 2

theorem below_pos (d : Double) : 0 < d.below := by
  unfold below
  split <;> omega

theorem below_le (d : Double) : d.below ≤ 2 := by
  unfold below
  split <;> omega

/-- Seventeen places suffice also below a power of two, where the significand is small. -/
theorem four_significand_lt (d : Double) : 4 * d.significand < 10 ^ 16 * (d.below + 2) := by
  have hfraction := d.fractionField_lt
  unfold significand below
  split <;> split <;> omega

theorem proper_ofDouble {d : Double} (h : d.significand ≠ 0) : (Interval.ofDouble d).Proper := by
  let up := 2 ^ (d.scale - 2).toNat
  have hup : 0 < up := Nat.two_pow_pos _
  have hbelow := d.below_pos
  have hle := d.below_le
  have hs := d.four_significand_lt
  refine ⟨Nat.two_pow_pos _, ?_, ?_, ?_⟩
  · change (4 * d.significand - d.below) * up < 4 * d.significand * up
    exact Nat.mul_lt_mul_of_pos_right (by omega) hup
  · change 4 * d.significand * up < (4 * d.significand + 2) * up
    exact Nat.mul_lt_mul_of_pos_right (by omega) hup
  · change 4 * d.significand * up <
      10 ^ 16 * ((4 * d.significand + 2) * up - (4 * d.significand - d.below) * up)
    rw [← Nat.sub_mul, ← Nat.mul_assoc]
    exact Nat.mul_lt_mul_of_pos_right (by omega) hup

/-- The number of powers of two by which the last place exceeds that of the smallest doubles. -/
def shift (d : Double) : ℕ := d.exponentField - 1

/-- The ends of the rounding interval, in quarters of the last place of the smallest doubles. -/
def lowEnd (d : Double) : ℕ := (4 * d.significand - d.below) * 2 ^ d.shift

def highEnd (d : Double) : ℕ := (4 * d.significand + 2) * 2 ^ d.shift

theorem two_zpow_ratio (k : ℤ) :
    ((2 ^ k.toNat : ℕ) : ℚ) / ((2 ^ (-k).toNat : ℕ) : ℚ) = 2 ^ k := by
  rw [div_eq_iff (by positivity)]
  push_cast
  rw [← zpow_natCast, ← zpow_natCast, ← zpow_add₀ (by norm_num)]
  congr 1
  omega

theorem end_ratio (d : Double) (n : ℕ) :
    ((n * 2 ^ (d.scale - 2).toNat : ℕ) : ℚ) / ((2 ^ (2 - d.scale).toNat : ℕ) : ℚ) =
      ((n * 2 ^ d.shift : ℕ) : ℚ) / 2 ^ 1076 := by
  have hscale : d.scale - 2 = (d.shift : ℤ) - (1076 : ℕ) := by
    unfold scale shift
    split <;> omega
  have hneg : 2 - d.scale = -(d.scale - 2) := by ring
  rw [hneg, Nat.cast_mul, mul_div_assoc, two_zpow_ratio, hscale, zpow_sub₀ (by norm_num),
    zpow_natCast, zpow_natCast, Nat.cast_mul, Nat.cast_pow, Nat.cast_ofNat, mul_div_assoc]

theorem low_ofDouble (d : Double) :
    ((Interval.ofDouble d).low : ℚ) / (Interval.ofDouble d).denominator = d.lowEnd / 2 ^ 1076 :=
  end_ratio d _

theorem high_ofDouble (d : Double) :
    ((Interval.ofDouble d).high : ℚ) / (Interval.ofDouble d).denominator = d.highEnd / 2 ^ 1076 :=
  end_ratio d _

/-- The bits without the sign. -/
def magnitude (d : Double) : ℕ := d.bits.toNat % 2 ^ 63

theorem magnitude_eq (d : Double) :
    d.magnitude = d.exponentField * 2 ^ 52 + d.fractionField := by
  unfold magnitude exponentField fractionField
  omega

/-- The part of the intervals that two doubles can share: at most one end, and that only if one of
them is odd, hence open. -/
def Below (d e : Double) : Prop :=
  d.highEnd ≤ e.lowEnd ∧
    (d.significand % 2 = 0 → e.significand % 2 = 0 → d.highEnd < e.lowEnd)

theorem below_of_fraction_lt {d e : Double} (hexponent : d.exponentField = e.exponentField)
    (hfraction : d.fractionField < e.fractionField) : Below d e := by
  have hbelow : e.below = 2 := by
    unfold below
    rw [if_neg]
    omega
  have hsignificand : d.significand < e.significand := by
    unfold significand
    split <;> split <;> omega
  have hshift : d.shift = e.shift := by rw [shift, shift, hexponent]
  unfold Below highEnd lowEnd
  rw [hbelow, hshift]
  constructor
  · exact Nat.mul_le_mul_right _ (by omega)
  · intro hd he
    exact Nat.mul_lt_mul_of_pos_right (by omega) (Nat.two_pow_pos _)

/-- From the second exponent on, the interval lies above what all smaller exponents reach. -/
theorem le_lowEnd {e : Double} {k : ℕ} (h : 1 < e.exponentField) (hk : k < e.shift) :
    (2 ^ 55 - 2) * 2 ^ k ≤ e.lowEnd := by
  have hsignificand : 2 ^ 54 - 1 ≤ 4 * e.significand - e.below := by
    unfold significand below
    split <;> split <;> omega
  calc
    (2 ^ 55 - 2) * 2 ^ k = (2 ^ 54 - 1) * 2 ^ (k + 1) := by rw [Nat.pow_succ]; omega
    _ ≤ (2 ^ 54 - 1) * 2 ^ e.shift :=
      Nat.mul_le_mul_left _ (Nat.pow_le_pow_right (by decide) hk)
    _ ≤ e.lowEnd := Nat.mul_le_mul_right _ hsignificand

theorem below_of_exponent_lt {d e : Double} (h : d.exponentField < e.exponentField) :
    Below d e := by
  have hfraction := d.fractionField_lt
  rcases Nat.lt_or_ge 1 e.exponentField with hone | hone
  · have hshift : d.shift < e.shift := by
      unfold shift
      omega
    have hlow := le_lowEnd hone hshift
    have hd := d.significand_lt
    constructor
    · exact (Nat.mul_le_mul_right _ (by omega)).trans hlow
    · intro heven _
      exact (Nat.mul_lt_mul_of_pos_right (by omega) (Nat.two_pow_pos _)).trans_le hlow
  · -- The smallest exponents have the same last place: their doubles are evenly spaced.
    have hd : d.exponentField = 0 := by omega
    have he : e.exponentField = 1 := by omega
    have hbelow : e.below = 2 := by
      unfold below
      rw [if_neg]
      omega
    unfold Below highEnd lowEnd shift significand
    rw [hbelow, hd, he]
    simp only [if_true, Nat.one_ne_zero, if_false, Nat.sub_self, Nat.zero_sub, Nat.pow_zero,
      Nat.mul_one]
    omega

theorem below_of_magnitude_lt {d e : Double} (h : d.magnitude < e.magnitude) : Below d e := by
  have hd := d.fractionField_lt
  have he := e.fractionField_lt
  rw [magnitude_eq, magnitude_eq] at h
  rcases Nat.lt_trichotomy d.exponentField e.exponentField with hlt | heq | hgt
  · exact below_of_exponent_lt hlt
  · exact below_of_fraction_lt heq (by omega)
  · omega

theorem holds_ofDouble_between {d : Double} {q : ℚ} (h : (Interval.ofDouble d).Holds q) :
    (d.lowEnd : ℚ) / 2 ^ 1076 ≤ q ∧ q ≤ d.highEnd / 2 ^ 1076 := by
  rw [← low_ofDouble, ← high_ofDouble]
  exact h.between

/-- Only the interval of an even significand contains its ends. -/
theorem even_of_holds_end {d : Double} {q : ℚ} (h : (Interval.ofDouble d).Holds q)
    (hend : q = d.lowEnd / 2 ^ 1076 ∨ q = d.highEnd / 2 ^ 1076) : d.significand % 2 = 0 := by
  by_contra hodd
  have hclosed : ¬ (Interval.ofDouble d).closed = true := fun hc => hodd (beq_iff_eq.mp hc)
  rw [Interval.Holds, if_neg hclosed, low_ofDouble, high_ofDouble] at h
  rcases hend with rfl | rfl
  · exact lt_irrefl _ h.1
  · exact lt_irrefl _ h.2

theorem not_holds_of_below {d e : Double} (h : Below d e) {q : ℚ}
    (hd : (Interval.ofDouble d).Holds q) : ¬ (Interval.ofDouble e).Holds q := by
  intro he
  have hpos : (0 : ℚ) < 2 ^ 1076 := by positivity
  have hle : (d.highEnd : ℚ) / 2 ^ 1076 ≤ e.lowEnd / 2 ^ 1076 :=
    div_le_div_of_nonneg_right (by exact_mod_cast h.1) hpos.le
  have hdq := (holds_ofDouble_between hd).2
  have heq := (holds_ofDouble_between he).1
  -- The number is the end that both share, so both are even, which their ends rule out.
  have hlow : q = e.lowEnd / 2 ^ 1076 := le_antisymm (hdq.trans hle) heq
  have hhigh : q = d.highEnd / 2 ^ 1076 := le_antisymm hdq (hle.trans heq)
  have hlt := h.2 (even_of_holds_end hd (Or.inr hhigh)) (even_of_holds_end he (Or.inl hlow))
  have hends : (d.highEnd : ℚ) = e.lowEnd := (div_left_inj' hpos.ne').mp (hhigh.symm.trans hlow)
  exact absurd (by exact_mod_cast hends) hlt.ne

/-- The intervals of different magnitudes share no number. -/
theorem magnitude_eq_of_holds {d e : Double} {q : ℚ} (hd : (Interval.ofDouble d).Holds q)
    (he : (Interval.ofDouble e).Holds q) : d.magnitude = e.magnitude := by
  rcases Nat.lt_trichotomy d.magnitude e.magnitude with hlt | heq | hgt
  · exact absurd he (not_holds_of_below (below_of_magnitude_lt hlt) hd)
  · exact heq
  · exact absurd hd (not_holds_of_below (below_of_magnitude_lt hgt) he)

theorem significand_ne_zero {d : Double} (h : d.magnitude ≠ 0) : d.significand ≠ 0 := by
  rw [magnitude_eq] at h
  unfold significand
  split <;> omega

theorem pos_of_holds {d : Double} (h : d.magnitude ≠ 0) {q : ℚ}
    (hq : (Interval.ofDouble d).Holds q) : 0 < q := by
  have hs := significand_ne_zero h
  have hbelow := d.below_le
  have hend : 0 < d.lowEnd := Nat.mul_pos (by omega) (Nat.two_pow_pos _)
  have hlow : (0 : ℚ) < d.lowEnd / 2 ^ 1076 := by
    have hcast : (0 : ℚ) < d.lowEnd := by exact_mod_cast hend
    positivity
  exact hlow.trans_le (holds_ofDouble_between hq).1

/-- The text of a zero. -/
def zeroNumeral : Numeral :=
  ⟨['0'], ['0'], none, Decimal.isDigit_of_mem_zero, Decimal.isDigit_of_mem_zero, by decide,
    by decide⟩

/-- The text of the magnitude of a finite double is a written number, zero for a zero and one in the
rounding interval for the others. -/
theorem exists_numeral {d : Double} (hfinite : d.isFinite = true) :
    ∃ n : Numeral, d.magnitudeText .row = n.text ∧
      (d.magnitude = 0 → n.value = 0) ∧
      (d.magnitude ≠ 0 → (Interval.ofDouble d).Holds n.value) := by
  by_cases hzero : d.magnitude = 0
  · refine ⟨zeroNumeral, ?_, fun _ => ?_, fun h => absurd hzero h⟩
    · have hz : d.isZero = true := beq_iff_eq.mpr hzero
      rw [magnitudeText, if_pos hz]
      rfl
    · have hcoefficient : Nat.ofDigitChars 10 ['0', '0'] 0 = 0 := rfl
      simp [zeroNumeral, Numeral.value, hcoefficient]
  · have hholds : (Interval.ofDouble d).Holds d.shortest.value :=
      Interval.holds_search_leadingExponent (proper_ofDouble (significand_ne_zero hzero))
    have hdigits : ∀ c ∈ d.shortest.digits, c.isDigit = true :=
      Interval.isDigit_of_mem_search _ _ _
    have hne : d.shortest.digits ≠ [] := by
      intro hnil
      have hvalue : d.shortest.value = 0 := by
        rw [Decimal.value, hnil]
        simp
      exact absurd hvalue (pos_of_holds hzero hholds).ne'
    have hwritten : d.shortest.IsWritten (d.magnitudeText .row) := by
      have hz : ¬ d.isZero = true := fun h => hzero (beq_iff_eq.mp h)
      rw [magnitudeText, if_neg hz, if_pos hfinite]
      dsimp only
      split
      · exact Decimal.isWritten_positional hdigits hne
      · exact Decimal.isWritten_scientific hdigits hne
    obtain ⟨n, htext, hvalue⟩ := hwritten
    exact ⟨n, htext, fun h => absurd h hzero, fun _ => hvalue ▸ hholds⟩

theorem magnitude_eq_of_magnitudeText_eq {d e : Double} (hd : d.isFinite = true)
    (he : e.isFinite = true) (h : d.magnitudeText .row = e.magnitudeText .row) :
    d.magnitude = e.magnitude := by
  obtain ⟨n, hn, hnzero, hnholds⟩ := exists_numeral hd
  obtain ⟨m, hm, hmzero, hmholds⟩ := exists_numeral he
  have hvalue : n.value = m.value := by
    apply Numeral.value_eq_of_text_eq
    rw [← hn, h, hm]
  by_cases hdz : d.magnitude = 0
  · by_cases hez : e.magnitude = 0
    · exact hdz.trans hez.symm
    · have hpos := pos_of_holds hez (hmholds hez)
      rw [← hvalue, hnzero hdz] at hpos
      exact absurd hpos (lt_irrefl 0)
  · by_cases hez : e.magnitude = 0
    · have hpos := pos_of_holds hdz (hnholds hdz)
      rw [hvalue, hmzero hez] at hpos
      exact absurd hpos (lt_irrefl 0)
    · exact magnitude_eq_of_holds (hnholds hdz) (hvalue ▸ hmholds hez)

/-- Infinity is the only other magnitude that is a number. -/
theorem magnitudeText_of_not_finite {d : Double} (hnan : d.isNaN = false)
    (hfinite : d.isFinite = false) :
    d.magnitudeText .row = ['i', 'n', 'f'] ∧ d.magnitude = 2047 * 2 ^ 52 := by
  have hexponent : d.exponentField = 2047 := by simpa [isFinite] using hfinite
  have hfraction : d.fractionField = 0 := by simpa [isNaN, hexponent] using hnan
  have hmagnitude : d.magnitude = 2047 * 2 ^ 52 := by rw [magnitude_eq, hexponent, hfraction]
  have hz : ¬ d.isZero = true := by
    intro h
    have hzero : d.magnitude = 0 := beq_iff_eq.mp h
    omega
  refine ⟨?_, hmagnitude⟩
  rw [magnitudeText, if_neg hz, hfinite]
  rfl

theorem magnitudeText_cases {d : Double} (hnan : d.isNaN = false) :
    (∃ n : Numeral, d.magnitudeText .row = n.text) ∨ d.magnitudeText .row = ['i', 'n', 'f'] := by
  cases hfinite : d.isFinite with
  | true =>
    obtain ⟨n, hn, -⟩ := exists_numeral hfinite
    exact Or.inl ⟨n, hn⟩
  | false => exact Or.inr (magnitudeText_of_not_finite hnan hfinite).1

theorem numeral_text_ne_cons (n : Numeral) {c : Char} (hc : c.isDigit = false) (r : List Char) :
    n.text ≠ c :: r := by
  intro h
  obtain ⟨c', r', htext, hdigit⟩ := n.exists_text_eq_cons
  rw [htext] at h
  rw [(List.cons.inj h).1, hc] at hdigit
  exact Bool.false_ne_true hdigit

/-- A magnitude starts with a digit or, if it is infinite, with a letter of its own. -/
theorem magnitudeText_ne_cons {d : Double} (hnan : d.isNaN = false) {c : Char}
    (hc : c.isDigit = false) (hi : c ≠ 'i') (r : List Char) :
    d.magnitudeText .row ≠ c :: r := by
  rcases magnitudeText_cases hnan with ⟨n, hn⟩ | hinf
  · rw [hn]
    exact numeral_text_ne_cons n hc r
  · rw [hinf]
    intro h
    exact hi (List.cons.inj h).1.symm

theorem magnitude_inj {d e : Double} (hd : d.isNaN = false) (he : e.isNaN = false)
    (h : d.magnitudeText .row = e.magnitudeText .row) : d.magnitude = e.magnitude := by
  cases hdf : d.isFinite with
  | true =>
    cases hef : e.isFinite with
    | true => exact magnitude_eq_of_magnitudeText_eq hdf hef h
    | false =>
      obtain ⟨n, hn, -⟩ := exists_numeral hdf
      rw [hn, (magnitudeText_of_not_finite he hef).1] at h
      exact absurd h (numeral_text_ne_cons n rfl _)
  | false =>
    cases hef : e.isFinite with
    | true =>
      obtain ⟨n, hn, -⟩ := exists_numeral hef
      rw [hn, (magnitudeText_of_not_finite hd hdf).1] at h
      exact absurd h.symm (numeral_text_ne_cons n rfl _)
    | false =>
      exact (magnitudeText_of_not_finite hd hdf).2.trans (magnitudeText_of_not_finite he hef).2.symm

theorem eq_of_sign_magnitude {d e : Double} (hsign : d.isNegative = e.isNegative)
    (hmagnitude : d.magnitude = e.magnitude) : d = e := by
  obtain ⟨d⟩ := d
  obtain ⟨e⟩ := e
  have hd := d.toNat_lt
  have he := e.toNat_lt
  simp only [isNegative, decide_eq_decide] at hsign
  simp only [magnitude] at hmagnitude
  have hbits : d.toNat = e.toNat := by omega
  rw [UInt64.toNat_inj.mp hbits]

theorem text_inj_of_not_nan {d e : Double} (hd : d.isNaN = false) (he : e.isNaN = false)
    (h : d.text .row = e.text .row) : d = e := by
  simp only [text, hd, he, Bool.false_eq_true, if_false] at h
  split at h
  · case isTrue hdneg =>
    split at h
    · case isTrue heneg =>
      exact eq_of_sign_magnitude (hdneg.trans heneg.symm)
        (magnitude_inj hd he (List.cons.inj h).2)
    · exact absurd h.symm (magnitudeText_ne_cons he rfl (by decide) _)
  · case isFalse hdneg =>
    split at h
    · exact absurd h (magnitudeText_ne_cons hd rfl (by decide) _)
    · case isFalse heneg =>
      have hsign : d.isNegative = e.isNegative := by
        rw [Bool.not_eq_true] at hdneg heneg
        rw [hdneg, heneg]
      exact eq_of_sign_magnitude hsign (magnitude_inj hd he h)

theorem text_ne_nan {d : Double} (hd : d.isNaN = false) : d.text .row ≠ ['N', 'a', 'N'] := by
  simp only [text, hd, Bool.false_eq_true, if_false]
  split
  · intro h
    exact absurd (List.cons.inj h).1 (by decide)
  · exact magnitudeText_ne_cons hd rfl (by decide) _

/-- The text of a double is `NaN`, or that of a magnitude, perhaps with a sign in front. -/
theorem text_cases (d : Double) :
    d.text .row = ['N', 'a', 'N'] ∨
      ∃ magnitude, (d.text .row = magnitude ∨ d.text .row = '-' :: magnitude) ∧
        ((∃ n : Numeral, magnitude = n.text) ∨ magnitude = ['i', 'n', 'f']) := by
  cases hnan : d.isNaN with
  | true => exact Or.inl (by rw [text, if_pos hnan])
  | false =>
    refine Or.inr ⟨d.magnitudeText .row, ?_, magnitudeText_cases hnan⟩
    simp only [text, hnan, Bool.false_eq_true, if_false]
    split
    · exact Or.inr rfl
    · exact Or.inl rfl

theorem mem_text {d : Double} {c : Char} (h : c ∈ d.text .row) :
    c.isDigit = true ∨ c ∈ ['.', 'e', '-', 'N', 'a', 'i', 'n', 'f'] := by
  rcases d.text_cases with hnan | ⟨magnitude, htext, hmagnitude⟩
  · rw [hnan] at h
    simp only [List.mem_cons, List.not_mem_nil, or_false] at h ⊢
    tauto
  · have hmem : c = '-' ∨ c ∈ magnitude := by
      rcases htext with htext | htext
      · exact Or.inr (htext ▸ h)
      · exact List.mem_cons.mp (htext ▸ h)
    rcases hmem with rfl | hmem
    · exact Or.inr (by decide)
    · rcases hmagnitude with ⟨n, rfl⟩ | rfl
      · rcases n.mem_text hmem with hdigit | hother
        · exact Or.inl hdigit
        · simp only [List.mem_cons, List.not_mem_nil, or_false]
          tauto
      · simp only [List.mem_cons, List.not_mem_nil, or_false] at hmem ⊢
        tauto

/-- What is in the text of a magnitude is in that of the double. -/
theorem mem_text_of_mem_magnitude {d : Double} {magnitude : List Char}
    (htext : d.text .row = magnitude ∨ d.text .row = '-' :: magnitude) {c : Char}
    (h : c ∈ magnitude) : c ∈ d.text .row := by
  rcases htext with htext | htext
  · exact htext ▸ h
  · exact htext ▸ List.mem_cons_of_mem _ h

/-- Some character of the text is in that of no integer. -/
theorem exists_mark (d : Double) : ∃ c ∈ d.text .row, c ∈ ['.', 'e', 'a', 'i'] := by
  rcases d.text_cases with hnan | ⟨magnitude, htext, ⟨n, rfl⟩ | rfl⟩
  · exact ⟨'a', by simp [hnan], by decide⟩
  · rcases n.point_or_exponent_mem_text with h | h
    · exact ⟨'.', mem_text_of_mem_magnitude htext h, by decide⟩
    · exact ⟨'e', mem_text_of_mem_magnitude htext h, by decide⟩
  · exact ⟨'i', mem_text_of_mem_magnitude htext (by decide), by decide⟩

/-- The double, with one NaN in the place of all. -/
def unifyNaN (d : Double) : Double := if d.isNaN then ⟨0x7ff8000000000000⟩ else d

theorem isNaN_of_unifyNaN_eq {d e : Double} (hd : d.isNaN = true)
    (h : d.unifyNaN = e.unifyNaN) : e.isNaN = true := by
  cases he : e.isNaN with
  | true => rfl
  | false =>
    have hnan : (⟨0x7ff8000000000000⟩ : Double) = e := by
      simpa only [unifyNaN, hd, he, if_true, Bool.false_eq_true, if_false] using h
    rw [← hnan] at he
    exact absurd he (by decide)

/-- Two doubles have one text exactly if they are the same or both NaN. -/
theorem text_eq_text_iff {d e : Double} :
    d.text .row = e.text .row ↔ d.unifyNaN = e.unifyNaN := by
  cases hd : d.isNaN with
  | true =>
    have hdtext : d.text .row = ['N', 'a', 'N'] := by rw [text, if_pos hd]
    rw [hdtext]
    constructor
    · intro h
      have he : e.isNaN = true := by
        by_contra he
        exact text_ne_nan (Bool.eq_false_of_not_eq_true he) h.symm
      rw [unifyNaN, unifyNaN, if_pos hd, if_pos he]
    · intro h
      rw [text, if_pos (isNaN_of_unifyNaN_eq hd h)]
  | false =>
    cases he : e.isNaN with
    | true =>
      have hetext : e.text .row = ['N', 'a', 'N'] := by rw [text, if_pos he]
      rw [hetext]
      constructor
      · intro h
        exact absurd h (text_ne_nan hd)
      · intro h
        rw [isNaN_of_unifyNaN_eq he h.symm] at hd
        exact absurd hd.symm Bool.false_ne_true
    | false =>
      have hdsame : d.unifyNaN = d := by simp [unifyNaN, hd]
      have hesame : e.unifyNaN = e := by simp [unifyNaN, he]
      rw [hdsame, hesame]
      exact ⟨text_inj_of_not_nan hd he, fun h => by rw [h]⟩

end Double
end RowPlan
