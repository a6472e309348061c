import Reckoner.Proofs.Number.Decimal

/-!
# Reckoner.Proofs.Number.Significant -- rounding to significant digits is correct

A quotient is rounded to the nearest integer, a half to the even one; the decade is the power of
ten at the first digit; and with the wanted digits in front of the point the two together round to
significant digits. What is nearest is unique, so the digits are found again from any number that
they are nearest to.
-/

namespace Reckoner.Number

/-! ## The nearest integer -/

namespace IsNearestEven

variable {v : ℚ} {q n : ℕ}

/-- There is one nearest integer that is even if another one is as near. -/
theorem unique (hq : IsNearestEven v q) (hn : IsNearestEven v n) : q = n := by
  wlog hle : q ≤ n generalizing q n
  · exact (this hn hq (by omega)).symm
  obtain ⟨hq, hqeven⟩ := hq
  obtain ⟨hn, hneven⟩ := hn
  obtain ⟨hq₁, hq₂⟩ := abs_le.mp hq
  obtain ⟨hn₁, hn₂⟩ := abs_le.mp hn
  by_contra hne
  -- two of them lie next to each other, half of the way from `v`
  have hnext : (q : ℚ) + 1 ≤ n := by exact_mod_cast (show q + 1 ≤ n by omega)
  have hhalf : v = q + 1 / 2 := by linarith
  have hsucc : n = q + 1 := by
    have hupper : (n : ℚ) ≤ q + 1 := by linarith
    have hupper : n ≤ q + 1 := by exact_mod_cast hupper
    omega
  have hevenq : Even q := hqeven (by rw [hhalf]; simp)
  have hevenn : Even n := hneven (by rw [hhalf, hsucc]; push_cast; norm_num [abs_of_neg])
  rw [hsucc, Nat.even_add_one] at hevenn
  exact hevenn hevenq

/-- A number that is at least an integer is rounded to at least that integer. -/
theorem le (hq : IsNearestEven v q) (h : (n : ℚ) ≤ v) : n ≤ q := by
  obtain ⟨hlower, hupper⟩ := abs_le.mp hq.1
  by_contra hlt
  have hnext : (q : ℚ) + 1 ≤ n := by exact_mod_cast (show q + 1 ≤ n by omega)
  linarith

theorem le_of_le (hq : IsNearestEven v q) (h : v ≤ n) : q ≤ n := by
  obtain ⟨hlower, hupper⟩ := abs_le.mp hq.1
  by_contra hlt
  have hnext : (n : ℚ) + 1 ≤ q := by exact_mod_cast (show n + 1 ≤ q by omega)
  linarith

theorem of_lt_half (hle : (n : ℚ) ≤ v) (hlt : v < n + 1 / 2) : IsNearestEven v n := by
  rw [IsNearestEven, abs_of_nonneg (sub_nonneg.mpr hle)]
  exact ⟨by linarith, fun htie => by linarith⟩

/-- Of two neighbours that are as near the even one is taken. -/
theorem of_half (n : ℕ) : IsNearestEven (n + 1 / 2) (n + n % 2) := by
  refine ⟨?_, fun _ => by rw [Nat.even_iff]; omega⟩
  rcases Nat.mod_two_eq_zero_or_one n with hmod | hmod
  · rw [hmod, Nat.add_zero, add_sub_cancel_left, abs_of_pos (by norm_num)]
  · rw [hmod, Nat.cast_add, Nat.cast_one, add_sub_add_left_eq_sub, abs_of_neg (by norm_num)]
    norm_num

theorem of_half_lt (hlt : n + 1 / 2 < v) (hle : v ≤ n + 1) : IsNearestEven v (n + 1) := by
  rw [IsNearestEven, Nat.cast_add, Nat.cast_one, abs_of_nonpos (sub_nonpos.mpr hle)]
  exact ⟨by linarith, fun htie => by linarith⟩

/-- What is no further from an integer than a number that is rounded to it is rounded to it too. -/
theorem of_nearer {w : ℚ} (h : IsNearestEven v q) (hle : |w - q| ≤ |v - q|) :
    IsNearestEven w q :=
  ⟨hle.trans h.1, fun htie => h.2 (le_antisymm h.1 (htie ▸ hle))⟩

/-- No integer is nearer than the nearest. -/
theorem abs_sub_le_abs_sub (h : IsNearestEven v q) (n : ℕ) : |v - q| ≤ |v - n| := by
  rcases eq_or_ne n q with rfl | hne
  · exact le_rfl
  · -- another integer is at least one away from the nearest
    have hone : (1 : ℚ) ≤ |(n : ℚ) - q| := by
      have hint : (1 : ℤ) ≤ |(n : ℤ) - q| := Int.one_le_abs (by omega)
      exact_mod_cast hint
    have hsplit : |(n : ℚ) - q| ≤ |v - q| + |v - n| := by
      rw [abs_sub_comm v n, add_comm]
      exact abs_sub_le (n : ℚ) v q
    have hhalf := h.1
    linarith

end IsNearestEven

/-- A quotient is its integer part and what is left of the divisor. -/
theorem div_add_mod_div (num : ℕ) {den : ℕ} (hden : 0 < den) :
    (num : ℚ) / den = (num / den : ℕ) + (num % den : ℕ) / den := by
  have hden' : (den : ℚ) ≠ 0 := by exact_mod_cast hden.ne'
  have hnum : (num : ℚ) = den * (num / den : ℕ) + (num % den : ℕ) := by
    exact_mod_cast (Nat.div_add_mod num den).symm
  rw [div_eq_iff hden', add_mul, div_mul_cancel₀ _ hden', hnum]
  ring

theorem mod_div_lt_one (num : ℕ) {den : ℕ} (hden : 0 < den) :
    ((num % den : ℕ) : ℚ) / den < 1 := by
  rw [div_lt_one (by exact_mod_cast hden)]
  exact_mod_cast Nat.mod_lt num hden

/-- What is left of a divisor is compared with its half. -/
theorem compare_half (rest : ℕ) {den : ℕ} (hden : 0 < den) :
    compare (2 * rest) den = compare ((rest : ℚ) / den) (1 / 2) := by
  have hden' : (0 : ℚ) < den := by exact_mod_cast hden
  have hlt {a b : ℚ} : a / den < b / 2 ↔ a * 2 < b * den := div_lt_div_iff₀ hden' two_pos
  rcases Nat.lt_trichotomy (2 * rest) den with h | h | h
  · have hrest : (rest : ℚ) / den < 1 / 2 := hlt.mpr (by exact_mod_cast (by omega))
    rw [compare_lt_iff_lt.mpr h, compare_lt_iff_lt.mpr hrest]
  · have hrest : (rest : ℚ) / den = 1 / 2 := by
      rw [div_eq_div_iff hden'.ne' two_ne_zero]
      exact_mod_cast (show rest * 2 = 1 * den by omega)
    rw [compare_eq_iff_eq.mpr h, compare_eq_iff_eq.mpr hrest]
  · have hrest : 1 / 2 < (rest : ℚ) / den := by
      rw [div_lt_div_iff₀ two_pos hden']
      exact_mod_cast (show 1 * den < rest * 2 by omega)
    rw [compare_gt_iff_gt.mpr h, compare_gt_iff_gt.mpr hrest]

/-- A quotient is rounded to the nearest integer, by what is left against a half of the divisor. -/
theorem isNearestEven_roundQuotient (num : ℕ) {den : ℕ} (hden : 0 < den) :
    IsNearestEven (num / den) (roundQuotient num den) := by
  have hrest : (0 : ℚ) ≤ (num % den : ℕ) / den := by positivity
  have hless := mod_div_lt_one num hden
  rw [div_add_mod_div num hden]
  simp only [roundQuotient, compare_half _ hden]
  split
  · next hcompare =>
    have hhalf := compare_lt_iff_lt.mp hcompare
    exact .of_lt_half (by linarith) (by linarith)
  · next hcompare =>
    rw [compare_eq_iff_eq.mp hcompare]
    exact .of_half _
  · next hcompare =>
    have hhalf := compare_gt_iff_gt.mp hcompare
    exact .of_half_lt (by linarith) (by linarith)

/-! ## The decade -/

/-- A positive number lies between two powers of ten that its number of digits gives. -/
theorem zpow_decimalDigits {n : ℕ} (hn : 0 < n) :
    (10 : ℚ) ^ ((decimalDigits n).length - 1 : ℤ) ≤ n ∧
      (n : ℚ) < 10 ^ ((decimalDigits n).length : ℤ) := by
  obtain ⟨hlower, hupper⟩ := decimalDigits_bounds hn
  have hpos := length_decimalDigits_pos n
  have hpred : ((decimalDigits n).length - 1 : ℤ) = ((decimalDigits n).length - 1 : ℕ) := by omega
  rw [hpred, zpow_natCast, zpow_natCast]
  exact ⟨by exact_mod_cast hlower, by exact_mod_cast hupper⟩

/-- A comparison with a power of ten, on whichever side the power has no sign. -/
theorem zpow_le_div_iff (num : ℕ) {den : ℕ} (hden : 0 < den) (k : ℤ) :
    den * Nat.pow 10 k.toNat ≤ num * Nat.pow 10 (-k).toNat ↔ (10 : ℚ) ^ k ≤ num / den := by
  have hden' : (0 : ℚ) < den := by exact_mod_cast hden
  rw [le_div_iff₀ hden']
  obtain ⟨n, rfl | rfl⟩ := k.eq_nat_or_neg
  · rw [Int.toNat_natCast, Int.toNat_neg_natCast, zpow_natCast, mul_comm den]
    have hone : Nat.pow 10 0 = 1 := rfl
    rw [hone, mul_one]
    exact_mod_cast Iff.rfl
  · rw [neg_neg, Int.toNat_natCast, Int.toNat_neg_natCast, zpow_neg, zpow_natCast,
      inv_mul_le_iff₀ (by positivity), mul_comm num]
    have hone : Nat.pow 10 0 = 1 := rfl
    rw [hone, mul_one]
    exact_mod_cast Iff.rfl

/-- The numbers of digits of its two parts leave two candidates for the decade of a fraction. -/
theorem zpow_length_sub_length {num den : ℕ} (hnum : 0 < num) (hden : 0 < den) :
    let k : ℤ := (decimalDigits num).length - (decimalDigits den).length
    (10 : ℚ) ^ (k - 1) ≤ num / den ∧ (num : ℚ) / den < 10 ^ (k + 1) := by
  intro k
  have hden' : (0 : ℚ) < den := by exact_mod_cast hden
  obtain ⟨hnum₁, hnum₂⟩ := zpow_decimalDigits hnum
  obtain ⟨hden₁, hden₂⟩ := zpow_decimalDigits hden
  have hten : (10 : ℚ) ≠ 0 := by norm_num
  rw [le_div_iff₀ hden', div_lt_iff₀ hden']
  constructor
  · calc (10 : ℚ) ^ (k - 1) * den
        ≤ 10 ^ (k - 1) * 10 ^ ((decimalDigits den).length : ℤ) := by gcongr
      _ = 10 ^ ((decimalDigits num).length - 1 : ℤ) := by
        rw [← zpow_add₀ hten]
        congr 1
        omega
      _ ≤ num := hnum₁
  · calc (num : ℚ) < 10 ^ ((decimalDigits num).length : ℤ) := hnum₂
      _ = 10 ^ (k + 1) * 10 ^ ((decimalDigits den).length - 1 : ℤ) := by
        rw [← zpow_add₀ hten]
        congr 1
        omega
      _ ≤ 10 ^ (k + 1) * den := by gcongr

/-- **The decade of a positive fraction** is the power of ten that its first digit stands for. -/
theorem decade_spec {num den : ℕ} (hnum : 0 < num) (hden : 0 < den) :
    (10 : ℚ) ^ decade num den ≤ num / den ∧ (num : ℚ) / den < 10 ^ (decade num den + 1) := by
  obtain ⟨hlower, hupper⟩ := zpow_length_sub_length hnum hden
  simp only [decade, zpow_le_div_iff num hden]
  split
  · next h => exact ⟨h, hupper⟩
  · next h =>
    rw [sub_add_cancel]
    exact ⟨hlower, not_le.mp h⟩

/-- A number has one decade. -/
theorem decade_unique {v : ℚ} {d e : ℤ} (hd : 10 ^ d ≤ v ∧ v < 10 ^ (d + 1))
    (he : 10 ^ e ≤ v ∧ v < 10 ^ (e + 1)) : d = e := by
  have hten : (1 : ℚ) < 10 := by norm_num
  have hde := (zpow_lt_zpow_iff_right₀ hten).mp (hd.1.trans_lt he.2)
  have hed := (zpow_lt_zpow_iff_right₀ hten).mp (he.1.trans_lt hd.2)
  omega

/-! ## Significant digits -/

/-- The number that some digits denote, the first of `p` standing for a power of ten. -/
def Significant.value (p : ℕ) (s : Significant) : ℚ := s.coefficient * 10 ^ (s.exponent + 1 - p)

/-- In the unit of their last place digits are their coefficient. -/
theorem Significant.value_mul (p : ℕ) (s : Significant) :
    s.value p * 10 ^ (p - 1 - s.exponent : ℤ) = s.coefficient := by
  rw [value, mul_assoc, ← zpow_add₀ (by norm_num)]
  have hzero : s.exponent + 1 - p + (p - 1 - s.exponent) = 0 := by ring
  rw [hzero, zpow_zero, mul_one]

variable {p num den : ℕ}

/-- A number has its first digit at the `d`-th power of ten if, in the unit of the last of `p`
digits, it has `p` digits in front of the point. -/
theorem scaled_bounds_iff {v : ℚ} {d : ℤ} (hp : 1 ≤ p) :
    (((10 ^ (p - 1) : ℕ) : ℚ) ≤ v * 10 ^ (p - 1 - d) ∧ v * 10 ^ (p - 1 - d) < (10 ^ p : ℕ)) ↔
      10 ^ d ≤ v ∧ v < 10 ^ (d + 1) := by
  have hten : (10 : ℚ) ≠ 0 := by norm_num
  have hscale : (0 : ℚ) < 10 ^ (p - 1 - d : ℤ) := by positivity
  have hfirst : ((10 ^ (p - 1) : ℕ) : ℚ) = 10 ^ d * 10 ^ (p - 1 - d : ℤ) := by
    rw [← zpow_add₀ hten, Nat.cast_pow, ← zpow_natCast]
    congr 1
    omega
  have hnext : ((10 ^ p : ℕ) : ℚ) = 10 ^ (d + 1) * 10 ^ (p - 1 - d : ℤ) := by
    rw [← zpow_add₀ hten, Nat.cast_pow, ← zpow_natCast]
    congr 1
    omega
  rw [hfirst, hnext, mul_le_mul_iff_left₀ hscale, mul_lt_mul_iff_left₀ hscale]

/-- Digits have the exponent of their decade. -/
theorem value_bounds (hp : 1 ≤ p) {s : Significant} (hlower : 10 ^ (p - 1) ≤ s.coefficient)
    (hupper : s.coefficient < 10 ^ p) :
    (10 : ℚ) ^ s.exponent ≤ s.value p ∧ s.value p < 10 ^ (s.exponent + 1) := by
  rw [← scaled_bounds_iff hp, Significant.value_mul]
  exact ⟨by exact_mod_cast hlower, by exact_mod_cast hupper⟩

/-- A fraction is scaled by a power of ten on whichever side the power has no sign. -/
theorem scaled_div (num den : ℕ) (k : ℤ) :
    ((num * Nat.pow 10 k.toNat : ℕ) : ℚ) / (den * Nat.pow 10 (-k).toNat : ℕ) =
      num / den * 10 ^ k := by
  have hpow (n : ℕ) : ((Nat.pow 10 n : ℕ) : ℚ) = 10 ^ n := by exact_mod_cast rfl
  rw [Nat.cast_mul, Nat.cast_mul, hpow, hpow]
  obtain ⟨n, rfl | rfl⟩ := k.eq_nat_or_neg
  · rw [Int.toNat_natCast, Int.toNat_neg_natCast, zpow_natCast, pow_zero, mul_one,
      mul_div_right_comm]
  · rw [neg_neg, Int.toNat_natCast, Int.toNat_neg_natCast, zpow_neg, zpow_natCast, pow_zero,
      mul_one, div_mul_eq_div_div, div_eq_mul_inv _ ((10 : ℚ) ^ n)]

/-- The nearest integer to a fraction of some decade, scaled to `p` digits, is found by dividing. -/
theorem isNearestEven_scaled (p num : ℕ) (hden : 0 < den) (d : ℤ) :
    IsNearestEven (num / den * 10 ^ (p - 1 - d))
      (roundQuotient (num * Nat.pow 10 (p - 1 - d).toNat)
        (den * Nat.pow 10 (-(p - 1 - d)).toNat)) := by
  rw [← scaled_div]
  exact isNearestEven_roundQuotient _ (Nat.mul_pos hden (Nat.pow_pos (by omega)))

/-- **Rounding to significant digits is correct.** The coefficient has the wanted number of digits,
also if rounding has reached the next decade. -/
theorem significant_spec (hp : 1 ≤ p) (hnum : 0 < num) (hden : 0 < den) :
    10 ^ (p - 1) ≤ (significant p num den).coefficient ∧
      (significant p num den).coefficient < 10 ^ p ∧
      RoundsTo p (num / den) ((significant p num den).value p) := by
  have hdecade := decade_spec hnum hden
  obtain ⟨hlower, hupper⟩ := (scaled_bounds_iff hp).mpr hdecade
  have hnearest := isNearestEven_scaled p num hden (decade num den)
  have hle := hnearest.le hlower
  have hge := hnearest.le_of_le hupper.le
  simp only [significant]
  split
  · next hcarry =>
    have hpow : Nat.pow 10 (p - 1) = 10 ^ (p - 1) := rfl
    refine ⟨hpow.ge, ?_, _, _, hdecade.1, hdecade.2, hnearest, ?_⟩
    · exact (Nat.pow_lt_pow_iff_right (by omega)).mpr (by omega)
    · -- a one in the next decade is as much as ten in this one
      have hten : (10 : ℚ) ≠ 0 := by norm_num
      have hcast (n : ℕ) : ((Nat.pow 10 n : ℕ) : ℚ) = 10 ^ (n : ℤ) := by
        rw [zpow_natCast]
        exact_mod_cast rfl
      show ((Nat.pow 10 (p - 1) : ℕ) : ℚ) * 10 ^ (decade num den + 1 + 1 - p) = _
      rw [hcarry, hcast, hcast, ← zpow_add₀ hten, ← zpow_add₀ hten]
      congr 1
      omega
  · next hq =>
    exact ⟨hle, Nat.lt_of_le_of_ne hge hq, _, _, hdecade.1, hdecade.2, hnearest, rfl⟩

/-- Digits that are no power of ten are nearest to what they were rounded from in the decade of
their first. -/
theorem significant_nearest (hden : 0 < den)
    (hpower : (significant p num den).coefficient ≠ 10 ^ (p - 1)) :
    IsNearestEven (num / den * 10 ^ (p - 1 - (significant p num den).exponent))
      (significant p num den).coefficient := by
  have hnearest := isNearestEven_scaled p num hden (decade num den)
  simp only [significant] at hpower ⊢
  split
  · next hcarry =>
    rw [if_pos hcarry] at hpower
    exact absurd rfl hpower
  · exact hnearest

/-- **Digits are found again** from any fraction that they are nearest to, unless they are a power
of ten: about another number of digits half a unit on either side stays within one decade. -/
theorem significant_eq {s : Significant} (hp : 1 ≤ p) (hnum : 0 < num) (hden : 0 < den)
    (hlower : 10 ^ (p - 1) < s.coefficient) (hupper : s.coefficient < 10 ^ p)
    (hnear : IsNearestEven (num / den * 10 ^ (p - 1 - s.exponent)) s.coefficient) :
    significant p num den = s := by
  obtain ⟨hbelow, habove⟩ := abs_le.mp hnear.1
  have hleast : ((10 ^ (p - 1) : ℕ) : ℚ) + 1 ≤ s.coefficient := by exact_mod_cast hlower
  have hmost : (s.coefficient : ℚ) + 1 ≤ (10 ^ p : ℕ) := by exact_mod_cast hupper
  have hdecade : (10 : ℚ) ^ s.exponent ≤ num / den ∧ (num : ℚ) / den < 10 ^ (s.exponent + 1) :=
    (scaled_bounds_iff hp).mp ⟨by linarith, by linarith⟩
  have hexponent : decade num den = s.exponent := decade_unique (decade_spec hnum hden) hdecade
  have hcoefficient := (isNearestEven_scaled p num hden s.exponent).unique hnear
  have hcarry : s.coefficient ≠ Nat.pow 10 p := hupper.ne
  simp only [significant, hexponent, hcoefficient, if_neg hcarry]

/-! ## The digits -/

/-- What the digits of a rounded fraction are. -/
theorem digits_significant (hp : 1 ≤ p) (hnum : 0 < num) (hden : 0 < den) :
    let ds := decimalDigits (significant p num den).coefficient
    ds.length = p ∧ (∀ c ∈ ds, isAsciiDigit c = true) ∧ ds ≠ [] ∧ ds.head? ≠ some '0' ∧
      digitsValue ds * 10 ^ ((significant p num den).exponent + 1 - ds.length) =
        (significant p num den).value p := by
  obtain ⟨hlower, hupper, -⟩ := significant_spec hp hnum hden
  have hpos : 0 < (significant p num den).coefficient :=
    Nat.lt_of_lt_of_le (Nat.pow_pos (by omega)) hlower
  have hlength : (decimalDigits (significant p num den).coefficient).length = p := by
    rw [length_decimalDigits hlower (by rwa [Nat.sub_add_cancel hp]), Nat.sub_add_cancel hp]
  refine ⟨hlength, fun c hc => isAsciiDigit_of_mem_decimalDigits hc, ?_,
    head?_decimalDigits_ne hpos, ?_⟩
  · exact List.length_pos_iff.mp (length_decimalDigits_pos _)
  · rw [hlength, digitsValue_decimalDigits, Significant.value]

/-- Between a millionth and ten to the twenty-first are the decades that are written
positionally. -/
theorem exponent_range {v : ℚ} {e : ℤ} (h : 10 ^ e ≤ v ∧ v < 10 ^ (e + 1)) :
    (-6 ≤ e ∧ e ≤ 20) ↔ (10 : ℚ) ^ (-6 : ℤ) ≤ v ∧ v < 10 ^ (21 : ℤ) := by
  have hten : (1 : ℚ) < 10 := by norm_num
  constructor
  · rintro ⟨hle, hge⟩
    exact ⟨(zpow_le_zpow_right₀ hten.le hle).trans h.1,
      h.2.trans_le (zpow_le_zpow_right₀ hten.le (by omega))⟩
  · rintro ⟨hle, hlt⟩
    have hless := (zpow_lt_zpow_iff_right₀ hten).mp (hle.trans_lt h.2)
    have hmore := (zpow_lt_zpow_iff_right₀ hten).mp (h.1.trans_lt hlt)
    omega

end Reckoner.Number
