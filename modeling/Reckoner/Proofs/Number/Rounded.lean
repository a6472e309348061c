import Mathlib
import Reckoner.Proofs.Number.Exact
import Reckoner.Proofs.Number.Reading

/-!
# Reckoner.Proofs.Number.Rounded -- results are rounded once

An operation gives the exact result rounded to the digits of a float, or an infinity if that is too
large for one.
-/

namespace Reckoner.Number

open Float.Model (Format UnpackedFloat)
open Float.Model.UnpackedFloat

/-- The number `r` is the positive number `v` rounded to fifty-three binary digits, a half going to
the even digit: if the first digit of `v` stands for `2 ^ t`, the last of them stands for
`2 ^ (t - 52)`. -/
def IsRounded (v r : ℚ) : Prop :=
  ∃ (t : ℤ) (n : ℕ), 2 ^ t ≤ v ∧ v < 2 ^ (t + 1) ∧ IsNearestEven (v / 2 ^ (t - 52)) n ∧
    r = n * 2 ^ (t - 52)

namespace IsRounded

variable {v r : ℚ}

/-- Rounding changes a number by half a unit in its last place. -/
theorem abs_sub_le (h : IsRounded v r) : |r - v| ≤ v / 2 ^ 53 := by
  obtain ⟨t, n, hlower, -, ⟨hhalf, -⟩, rfl⟩ := h
  have hunit : (0 : ℚ) < 2 ^ (t - 52) := by positivity
  have hscaled : (n : ℚ) * 2 ^ (t - 52) - v = -((v / 2 ^ (t - 52) - n) * 2 ^ (t - 52)) := by
    rw [sub_mul, div_mul_cancel₀ _ hunit.ne', neg_sub]
  rw [hscaled, abs_neg, abs_mul, abs_of_pos hunit]
  calc |v / 2 ^ (t - 52) - n| * 2 ^ (t - 52) ≤ 1 / 2 * 2 ^ (t - 52) := by gcongr
    _ = 2 ^ t / 2 ^ 53 := by
        rw [zpow_sub₀ two_ne_zero]
        norm_num
        ring
    _ ≤ v / 2 ^ 53 := by gcongr

/-- A number with fifty-three binary digits is not changed. -/
theorem eq_self (h : IsRounded v r) {m : ℕ} (hm : m < 2 ^ 53) {e : ℤ} (hv : v = m * 2 ^ e) :
    r = v := by
  obtain ⟨t, n, hlower, hupper, hn, rfl⟩ := h
  have hle := nearest_of_isNearestEven ⟨hlower, hupper⟩ hn hm e
  rw [← hv, sub_self, abs_zero, abs_nonpos_iff, sub_eq_zero] at hle
  exact hle.symm

end IsRounded

/-- Whether an unpacked float is the positive number `v` rounded to the digits of a float, with some
sign, or infinity if the rounded number is too large. -/
def Rounds (u : UnpackedFloat) (s : Sign) (v : ℚ) : Prop :=
  ∃ r, IsRounded v r ∧
    (r < 2 ^ (1024 : ℤ) → ∃ m e h, u = .finite s m e h ∧ Normal m e ∧ (m : ℚ) * 2 ^ e = r) ∧
    (2 ^ (1024 : ℤ) ≤ r → u = .infinity s)

/-! ## Packing -/

/-- A mantissa that has an exponent beyond the range is packed as infinity. -/
theorem unpack_pack_of_lt {s : Sign} {m : ℕ} {e : ℤ} {h : 0 < m} (he : 971 < e) :
    unpack .binary64 (pack .binary64 (.finite s m e h)) = .infinity s := by
  have hbias : Format.binary64.exponentBias = 1023 := rfl
  have hbiased : 2 ^ Format.binary64.exponentBits ≤ (e + Format.binary64.exponentBias +
      Format.binary64.mantissaBitsWithoutImplicit).toNat + 1 := by
    show 2 ^ 11 ≤ (e + (1023 : ℕ) + (52 : ℕ)).toNat + 1
    omega
  have hpack : pack .binary64 (.finite s m e h) = packedInfinity .binary64 s := by
    simp only [pack]
    exact if_pos hbiased
  rw [hpack, packedInfinity]
  simp only [unpack, unpackMantissa_packComponents, unpackExponent_packComponents,
    unpackSign_packComponents, Sign.ofBitVec_toBitVec]
  rfl

variable {v : ℚ} {t e : ℤ} {m : ℕ} {acc : Accuracy}

/-- A mantissa of fifty-three digits makes a number with a first digit that is known. -/
theorem zpow_mantissa (hlower : 2 ^ 52 ≤ m) (hupper : m < 2 ^ 53) (e : ℤ) :
    (2 : ℚ) ^ (e + 52) ≤ m * 2 ^ e ∧ (m : ℚ) * 2 ^ e < 2 ^ (e + 53) := by
  have hbounds := zpow_log2 (Nat.lt_of_lt_of_le (Nat.two_pow_pos 52) hlower) e
  rw [log2_eq hlower hupper] at hbounds
  have hfirst : ((52 : ℕ) + e : ℤ) = e + 52 := by omega
  have hnext : e + 52 + 1 = e + 53 := by omega
  rw [hfirst, hnext] at hbounds
  exact hbounds

/-- **A number that is located by a long mantissa is rounded once** on its way into a float. -/
theorem rounds_of_locates (s : Sign) (hloc : Locates (.ofMantissaAndAccuracy m acc) (v / 2 ^ e))
    (hv : 2 ^ t ≤ v ∧ v < 2 ^ (t + 1)) (he : e ≤ t - 52) (ht : -1022 ≤ t) :
    Rounds (Float.Model.pack (roundWithAccuracy .binary64 s m e acc)).unpack s v := by
  obtain ⟨n, hn, m', e', h, hround, hlower, hupper, hleast, -, hvalue⟩ :=
    roundWithAccuracy_spec s hloc hv he ht
  obtain ⟨hfirst, hnext⟩ := zpow_mantissa hlower hupper e'
  rw [hround]
  refine ⟨n * 2 ^ (t - 52), ⟨t, n, hv.1, hv.2, hn, rfl⟩, ?_, ?_⟩
  · intro hsmall
    rw [← hvalue] at hsmall
    have hexponent := (zpow_lt_zpow_iff_right₀ one_lt_two).mp (hfirst.trans_lt hsmall)
    have hnormal : Normal m' e' := ⟨hlower, hupper, by omega, by omega⟩
    exact ⟨m', e', h, unpack_pack hnormal, hnormal, hvalue⟩
  · intro hlarge
    rw [← hvalue] at hlarge
    have hexponent := (zpow_lt_zpow_iff_right₀ one_lt_two).mp (hlarge.trans_lt hnext)
    exact unpack_pack_of_lt (h := h) (by omega)

/-- A mantissa of at most `k` digits makes a number with at most so many digits. -/
theorem mul_zpow_lt {k : ℕ} (hm : m < 2 ^ k) (e : ℤ) : (m : ℚ) * 2 ^ e < 2 ^ (e + k) := by
  have hdigits : (m : ℚ) < 2 ^ k := by exact_mod_cast hm
  rw [zpow_add₀ two_ne_zero, zpow_natCast, mul_comm]
  gcongr

/-! ## Operations -/

section Operations

variable {x y : Float} {s₁ s₂ : Sign} {m₁ m₂ : ℕ} {e₁ e₂ : ℤ} {h₁ : 0 < m₁} {h₂ : 0 < m₂}

/-- A float that is not too small is in the normal range. -/
theorem normal_of_le (hx : x.toModel.unpack = .finite s₁ m₁ e₁ h₁)
    (hle : (2 : ℚ) ^ (-1022 : ℤ) ≤ m₁ * 2 ^ e₁) : Normal m₁ e₁ := by
  rcases normal_or_subnormal hx with hnormal | ⟨hshort, rfl⟩
  · exact hnormal
  · exact absurd hle (mul_zpow_lt hshort (-1074)).not_ge

/-- No finite float is as large as the power of two beyond the range. -/
theorem lt_of_unpack (hx : x.toModel.unpack = .finite s₁ m₁ e₁ h₁) :
    (m₁ : ℚ) * 2 ^ e₁ < 2 ^ (1024 : ℤ) := by
  have hexponent : e₁ ≤ 971 := by
    rcases normal_or_subnormal hx with hnormal | ⟨-, rfl⟩
    · exact hnormal.exponent_le
    · omega
  calc (m₁ : ℚ) * 2 ^ e₁ < 2 ^ (e₁ + (53 : ℕ)) := mul_zpow_lt (mantissa_lt hx) e₁
    _ ≤ 2 ^ (1024 : ℤ) := zpow_le_zpow_right₀ one_le_two (by omega)

/-- A number from the normal range has a first digit. -/
theorem exists_first_digit (hv : 2 ^ (-1022 : ℤ) ≤ v) :
    ∃ t : ℤ, -1022 ≤ t ∧ 2 ^ t ≤ v ∧ v < 2 ^ (t + 1) := by
  have hpos : 0 < v := lt_of_lt_of_le (by positivity) hv
  have hlower := Int.zpow_log_le_self (b := 2) one_lt_two hpos
  have hupper := Int.lt_zpow_succ_log_self (b := 2) one_lt_two v
  push_cast at hlower hupper
  refine ⟨Int.log 2 v, ?_, hlower, hupper⟩
  have hless := (zpow_lt_zpow_iff_right₀ one_lt_two).mp (hv.trans_lt hupper)
  omega

/-- **A product is rounded once**, in the normal range and above. -/
theorem mul_rounds (hx : x.toModel.unpack = .finite s₁ m₁ e₁ h₁)
    (hy : y.toModel.unpack = .finite s₂ m₂ e₂ h₂) (hlong : 2 ^ 52 ≤ m₁)
    (hv : (2 : ℚ) ^ (-1022 : ℤ) ≤ m₁ * 2 ^ e₁ * (m₂ * 2 ^ e₂)) :
    Rounds (x * y).toModel.unpack (s₁ * s₂) (m₁ * 2 ^ e₁ * (m₂ * 2 ^ e₂)) := by
  obtain ⟨t, ht, hbounds⟩ := exists_first_digit hv
  show Rounds (Float.Model.pack (mul .binary64 x.toModel.unpack y.toModel.unpack)).unpack _ _
  rw [hx, hy]
  have hproduct : (m₁ : ℚ) * 2 ^ e₁ * (m₂ * 2 ^ e₂) = (m₁ * m₂ : ℕ) * 2 ^ (e₁ + e₂) := by
    rw [zpow_add₀ two_ne_zero, Nat.cast_mul]
    ring
  apply rounds_of_locates (s₁ * s₂) ?_ hbounds ?_ ht
  · rw [hproduct, mul_div_cancel_right₀ _ (by positivity)]
    exact locates_exact _
  · -- one long factor makes the product long enough
    have hfactor : ((2 ^ 52 : ℕ) : ℚ) ≤ (m₁ * m₂ : ℕ) := by
      exact_mod_cast hlong.trans (Nat.le_mul_of_pos_right m₁ h₂)
    have hlower : (2 : ℚ) ^ (e₁ + e₂ + 52) ≤ (m₁ * m₂ : ℕ) * 2 ^ (e₁ + e₂) := by
      rw [zpow_add₀ two_ne_zero, mul_comm]
      push_cast at hfactor ⊢
      gcongr
    rw [← hproduct] at hlower
    have hless := (zpow_lt_zpow_iff_right₀ one_lt_two).mp (hlower.trans_lt hbounds.2)
    omega

/-- **A quotient is rounded once**, in the normal range and above. -/
theorem div_rounds (hx : x.toModel.unpack = .finite s₁ m₁ e₁ h₁)
    (hy : y.toModel.unpack = .finite s₂ m₂ e₂ h₂)
    (hv : (2 : ℚ) ^ (-1022 : ℤ) ≤ m₁ * 2 ^ e₁ / (m₂ * 2 ^ e₂)) :
    Rounds (x / y).toModel.unpack (s₁ / s₂) (m₁ * 2 ^ e₁ / (m₂ * 2 ^ e₂)) := by
  obtain ⟨t, ht, hbounds⟩ := exists_first_digit hv
  obtain ⟨m, e, acc, hcore, hlocates, hlow⟩ := locates_divCore h₁ h₂ rfl hbounds.2 ht
  show Rounds (Float.Model.pack (div .binary64 x.toModel.unpack y.toModel.unpack)).unpack _ _
  rw [hx, hy]
  show Rounds (Float.Model.pack (roundWithAccuracy .binary64 (s₁ / s₂)
    (divCore .binary64 m₁ e₁ m₂ e₂).1 (divCore .binary64 m₁ e₁ m₂ e₂).2.1
    (divCore .binary64 m₁ e₁ m₂ e₂).2.2)).unpack _ _
  rw [hcore]
  exact rounds_of_locates (s₁ / s₂) hlocates hbounds hlow ht

end Operations

/-! ## Whole numbers -/

theorem zpow_le_natCast {n : ℕ} (hn : 0 < n) : (2 : ℚ) ^ (-1022 : ℤ) ≤ n := by
  calc (2 : ℚ) ^ (-1022 : ℤ) ≤ 1 := zpow_le_one_of_nonpos₀ one_le_two (by omega)
    _ ≤ n := by exact_mod_cast hn

/-- A whole number goes through a product of integers on its way into a float. -/
theorem ofScientific_rounds {n : ℕ} (hn : 0 < n) :
    Rounds (Float.Model.pack (ofScientific .binary64 n 0)).unpack .positive n := by
  have hone : (1 : ℚ) ≤ n := by exact_mod_cast hn
  obtain ⟨t, ht, hlower, hupper⟩ := exists_first_digit (zpow_le_natCast hn)
  have hfirst : (2 : ℚ) ^ (0 : ℤ) < 2 ^ (t + 1) := by
    rw [zpow_zero]
    exact hone.trans_lt hupper
  have hexponent := (zpow_lt_zpow_iff_right₀ one_lt_two).mp hfirst
  have hbits : Format.binary64.exponentBits = 11 := rfl
  have hdigits : Format.binary64.mantissaBits = 53 := rfl
  have hten : 10 ^ (0 : ℤ).toNat = 1 := rfl
  rw [ofScientific, dif_neg hn.ne', hbits, if_neg (by omega), if_neg (by omega), if_pos le_rfl,
    mul_positive, hdigits, Nat.shiftLeft_eq, hten, mul_one, add_zero]
  apply rounds_of_locates .positive ?_ ⟨hlower, hupper⟩ (by omega) ht
  have hscaled : (n : ℚ) / 2 ^ (-(53 : ℕ) : ℤ) = (n * 2 ^ 53 : ℕ) := by
    rw [zpow_neg, zpow_natCast, div_inv_eq_mul]
    push_cast
    rfl
  rw [hscaled]
  exact locates_exact _

/-- **The float of a whole number is that number rounded once.** -/
theorem ofNat_rounds {n : ℕ} (hn : 0 < n) : Rounds (Float.ofNat n).toModel.unpack .positive n := by
  show Rounds (Float.ofScientific n false 0).toModel.unpack .positive n
  unfold Float.ofScientific
  split
  · next hsmall =>
    -- the short cut multiplies by the first power of ten, which is one
    obtain ⟨m₁, e₁, h₁, hunpack₁, hvalue₁⟩ := hasValue_toFloat hn hsmall.1
    obtain ⟨m₂, e₂, h₂, hunpack₂, hvalue₂⟩ := hasValue_powerOfTen (f := 0) (by decide)
    have hvalue : (m₁ : ℚ) * 2 ^ e₁ * (m₂ * 2 ^ e₂) = n := by
      rw [hvalue₁, hvalue₂, pow_zero, mul_one]
    have hlong : 2 ^ 52 ≤ m₁ := by
      apply (normal_of_le hunpack₁ ?_).le_mantissa
      rw [hvalue₁]
      exact zpow_le_natCast hn
    have hrounds := mul_rounds hunpack₁ hunpack₂ hlong (by
      rw [hvalue]
      exact zpow_le_natCast hn)
    rw [hvalue] at hrounds
    exact hrounds
  · exact ofScientific_rounds hn

end Reckoner.Number
