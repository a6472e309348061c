import Reckoner.Proofs.Number.Nearest

/-!
# Reckoner.Proofs.Number.Reading -- a numeral is read as the nearest float

Digits with a point among them are an integer divided by a power of ten. When both are floats
themselves the floats are divided, otherwise the integers are; rounding once, either way gives the
nearest float.
-/

namespace Reckoner.Number

open Float.Model (Format UnpackedFloat totalExponent)
open Float.Model.UnpackedFloat

/-- A float that is exactly the positive number `v`. -/
def HasValue (x : Float) (v : ℚ) : Prop :=
  ∃ m e h, x.toModel.unpack = .finite .positive m e h ∧ (m : ℚ) * 2 ^ e = v

variable {v : ℚ} {t : ℤ} {m₁ m₂ m f : ℕ} {e₁ e₂ : ℤ}

/-! ## Division -/

/-- A positive number lies between the powers of two that the length of its mantissa gives. -/
theorem zpow_log2 (hm : 0 < m) (e : ℤ) :
    (2 : ℚ) ^ (m.log2 + e : ℤ) ≤ m * 2 ^ e ∧ (m : ℚ) * 2 ^ e < 2 ^ (m.log2 + e + 1 : ℤ) := by
  have hunit : (0 : ℚ) < 2 ^ e := by positivity
  have hlower : ((2 ^ m.log2 : ℕ) : ℚ) ≤ m := by exact_mod_cast Nat.log2_self_le hm.ne'
  have hupper : (m : ℚ) < ((2 ^ (m.log2 + 1) : ℕ) : ℚ) := by exact_mod_cast Nat.lt_log2_self
  push_cast at hlower hupper
  constructor
  · rw [zpow_add₀ two_ne_zero, zpow_natCast]
    gcongr
  · rw [show (m.log2 + e + 1 : ℤ) = (m.log2 + 1 : ℕ) + e by push_cast; ring,
      zpow_add₀ two_ne_zero, zpow_natCast]
    gcongr

/-- The first digit of a quotient stands at most one place below the difference of both. -/
theorem log2_sub_le (h₁ : 0 < m₁) (h₂ : 0 < m₂) (hv : v = m₁ * 2 ^ e₁ / (m₂ * 2 ^ e₂))
    (hupper : v < 2 ^ (t + 1)) : (m₁.log2 + e₁) - (m₂.log2 + e₂) ≤ t + 1 := by
  obtain ⟨hleast, -⟩ := zpow_log2 h₁ e₁
  obtain ⟨-, hmost⟩ := zpow_log2 h₂ e₂
  have hdivisor : (0 : ℚ) < m₂ * 2 ^ e₂ := by
    have hm₂ : (0 : ℚ) < m₂ := by exact_mod_cast h₂
    positivity
  rw [hv, div_lt_iff₀ hdivisor] at hupper
  have hless : (2 : ℚ) ^ (m₁.log2 + e₁ : ℤ) < 2 ^ (t + 1 + (m₂.log2 + e₂ + 1)) := by
    calc (2 : ℚ) ^ (m₁.log2 + e₁ : ℤ) ≤ m₁ * 2 ^ e₁ := hleast
      _ < 2 ^ (t + 1) * (m₂ * 2 ^ e₂) := hupper
      _ < 2 ^ (t + 1) * 2 ^ (m₂.log2 + e₂ + 1 : ℤ) := by gcongr
      _ = 2 ^ (t + 1 + (m₂.log2 + e₂ + 1)) := (zpow_add₀ two_ne_zero _ _).symm
  have hexponents := (zpow_lt_zpow_iff_right₀ one_lt_two).mp hless
  omega

/-- The quotient of two mantissas is located by an integer with enough digits. -/
theorem locates_divCore (h₁ : 0 < m₁) (h₂ : 0 < m₂) (hv : v = m₁ * 2 ^ e₁ / (m₂ * 2 ^ e₂))
    (hupper : v < 2 ^ (t + 1)) (ht : -1022 ≤ t) :
    ∃ m e acc, divCore .binary64 m₁ e₁ m₂ e₂ = (m, e, acc) ∧
      Locates (.ofMantissaAndAccuracy m acc) (v / 2 ^ e) ∧ e ≤ t - 52 := by
  have htwo : (2 : ℚ) ≠ 0 := two_ne_zero
  set target := min (e₁ - e₂)
    (Format.binary64.targetExponent (totalExponent m₁ e₁ - totalExponent m₂ e₂)) with htarget
  obtain ⟨k, hk⟩ := Int.eq_ofNat_of_zero_le (show 0 ≤ e₁ - e₂ - target by omega)
  have hcore : divCore .binary64 m₁ e₁ m₂ e₂ = (m₁ * 2 ^ k / m₂, target,
      accuracyOfFraction (m₁ * 2 ^ k % m₂) m₂) := by
    simp only [divCore, ← htarget, hk, Int.toNat_natCast, Nat.shiftLeft_eq]
  have hscaled : v / 2 ^ target = ((m₁ * 2 ^ k : ℕ) : ℚ) / m₂ := by
    have hm₂ : (m₂ : ℚ) ≠ 0 := by exact_mod_cast h₂.ne'
    have he₁ : e₁ = k + target + e₂ := by omega
    rw [hv, he₁, zpow_add₀ htwo, zpow_add₀ htwo, zpow_natCast, Nat.cast_mul, Nat.cast_pow,
      Nat.cast_ofNat]
    field_simp
  refine ⟨_, _, _, hcore, ?_, ?_⟩
  · rw [hscaled]
    exact locates_quotient _ h₂
  · -- the quotient has at least as many digits as a float
    have hlogs := log2_sub_le h₁ h₂ hv hupper
    refine (min_le_right _ _).trans ?_
    rw [← targetExponent_eq ht]
    refine max_le_max (Int.sub_le_sub_right ?_ _) le_rfl
    rw [totalExponent, totalExponent]
    omega

/-- **The quotient of two floats is the nearest float**, in the normal range. -/
theorem div_nearest (h₁ : 0 < m₁) (h₂ : 0 < m₂) (hv : v = m₁ * 2 ^ e₁ / (m₂ * 2 ^ e₂))
    (hbounds : 2 ^ t ≤ v ∧ v < 2 ^ (t + 1)) (ht : -1022 ≤ t) (ht' : t ≤ 1022) :
    IsNearestFloat (div .binary64 (.finite .positive m₁ e₁ h₁) (.finite .positive m₂ e₂ h₂)) v := by
  obtain ⟨m, e, acc, hcore, hlocates, hlow⟩ := locates_divCore h₁ h₂ hv hbounds.2 ht
  show IsNearestFloat (roundWithAccuracy .binary64 .positive (divCore .binary64 m₁ e₁ m₂ e₂).1
    (divCore .binary64 m₁ e₁ m₂ e₂).2.1 (divCore .binary64 m₁ e₁ m₂ e₂).2.2) v
  rw [hcore]
  exact roundWithAccuracy_nearest hlocates hbounds hlow ht ht'

/-! ## Numerals -/

/-- A nearest float is unpacked as it was packed. -/
theorem IsNearestFloat.unpack_pack {u : UnpackedFloat} (h : IsNearestFloat u v) :
    (Float.Model.pack u).unpack = u := by
  obtain ⟨m, e, hm, rfl, hnormal, -⟩ := h
  exact Number.unpack_pack hnormal

/-- A mantissa that has been made long enough is rounded to the nearest float. -/
theorem roundWithAccuracy_shifted (hm : 0 < m) {k : ℕ} (hk : 52 ≤ m.log2 + k)
    (hlog : m.log2 ≤ 1022) :
    IsNearestFloat (roundWithAccuracy .binary64 .positive (m * 2 ^ k) (-k) .exact) m := by
  obtain ⟨hlower, hupper⟩ := zpow_log2 hm 0
  rw [zpow_zero, mul_one, add_zero] at hlower hupper
  refine roundWithAccuracy_nearest ?_ ⟨hlower, hupper⟩ (by omega) (by omega) (by omega)
  have hscaled : (m : ℚ) / 2 ^ (-k : ℤ) = (m * 2 ^ k : ℕ) := by
    rw [zpow_neg, zpow_natCast, div_inv_eq_mul]
    push_cast
    rfl
  rw [hscaled]
  exact locates_exact _

/-- An integer with at most fifty-three binary digits is a float. -/
theorem hasValue_toFloat (hm : 0 < m) (hlt : m < 2 ^ 53) : HasValue m.toUInt64.toFloat m := by
  have hlog : m.log2 ≤ 52 := Nat.lt_succ_iff.mp ((Nat.log2_lt hm.ne').mpr hlt)
  obtain ⟨k, hk⟩ := Nat.exists_eq_add_of_le hlog
  have htoNat : m.toUInt64.toNat = m := by
    show m % 2 ^ 64 = m
    omega
  have hcompare : compare (m : ℤ) 0 = .gt := compare_gt_iff_gt.mpr (by omega)
  have htarget : Format.binary64.targetExponent (totalExponent m 0) = -k := by
    rw [totalExponent, add_zero, targetExponent_eq (by omega)]
    omega
  have hround : UnpackedFloat.round .binary64 .positive m 0 =
      roundWithAccuracy .binary64 .positive (m * 2 ^ k) (-k) .exact := by
    simp only [UnpackedFloat.round, htarget, decreaseExponent, sub_neg_eq_add, zero_add,
      Int.toNat_natCast, Nat.shiftLeft_eq, zero_sub]
  have hmodel : m.toUInt64.toFloat.toModel =
      .pack (roundWithAccuracy .binary64 .positive (m * 2 ^ k) (-k) .exact) := by
    show Float.Model.pack (UnpackedFloat.normalize .binary64 (m.toUInt64.toNat : ℤ) 0 .positive) = _
    rw [htoNat, UnpackedFloat.normalize, hcompare, ← hround]
    rfl
  have hnearest := roundWithAccuracy_shifted hm (k := k) (by omega) (by omega)
  rw [HasValue, hmodel, hnearest.unpack_pack]
  exact hnearest.eq hlt (e := 0) (by rw [zpow_zero, mul_one])

/-- A float is a positive integer if its exact value is a fraction that comes to it. -/
theorem hasValue_of_exactValue? {x : Float} {n : ℕ} (hn : 0 < n)
    (h : (exactValue? x).any (fun w => !w.negative && w.num == n * w.den) = true) :
    HasValue x n := by
  cases hx : exactValue? x with
  | none =>
      rw [hx] at h
      cases h
  | some w =>
      rw [hx, Option.any_some, Bool.and_eq_true, Bool.not_eq_true', beq_iff_eq] at h
      obtain ⟨hsign, hnum⟩ := h
      have hden := den_pos_of_exactValue? hx
      have hpos : 0 < w.num := hnum ▸ Nat.mul_pos hn hden
      obtain ⟨s, m, e, hm, hunpack, rfl⟩ := unpack_of_exactValue? hx hpos.ne'
      have hs : s = .positive := by
        cases s with
        | positive => rfl
        | negative => cases hsign
      subst hs
      have hden' : ((Exact.ofFinite .positive m e).den : ℚ) ≠ 0 := by exact_mod_cast hden.ne'
      refine ⟨m, e, hm, hunpack, ?_⟩
      rw [← Exact.magnitude_ofFinite .positive, Exact.magnitude, hnum, Nat.cast_mul,
        mul_div_cancel_right₀ _ hden']

/-- The powers of ten in the table are exact. -/
theorem hasValue_powerOfTen (h : f < Float.exactlyRepresentablePowersOfTen.size) :
    HasValue Float.exactlyRepresentablePowersOfTen[f] (10 ^ f) := by
  have htable : ∀ k (h : k < Float.exactlyRepresentablePowersOfTen.size),
      (exactValue? Float.exactlyRepresentablePowersOfTen[k]).any
        (fun w => !w.negative && w.num == 10 ^ k * w.den) = true := by decide +kernel
  exact_mod_cast hasValue_of_exactValue? (Nat.pow_pos (by omega)) (htable f h)

/-- A numeral in the normal range is not far below its digits. -/
theorem le_log2_of_bounds (hlower : 2 ^ t ≤ (m : ℚ) / 10 ^ f) (ht : -1022 ≤ t) :
    f ≤ m.log2 + 1022 := by
  have hten : (0 : ℚ) < 10 ^ f := by positivity
  have hupper : (m : ℚ) < ((2 ^ (m.log2 + 1) : ℕ) : ℚ) := by exact_mod_cast Nat.lt_log2_self
  rw [le_div_iff₀ hten] at hlower
  have hless : (2 : ℚ) ^ (-1022 + f : ℤ) < 2 ^ (m.log2 + 1 : ℤ) := by
    calc (2 : ℚ) ^ (-1022 + f : ℤ) = 2 ^ (-1022 : ℤ) * 2 ^ f := by
          rw [zpow_add₀ two_ne_zero, zpow_natCast]
      _ ≤ 2 ^ t * 10 ^ f := by
          gcongr
          · exact one_le_two
          · norm_num
      _ ≤ m := hlower
      _ < ((2 ^ (m.log2 + 1) : ℕ) : ℚ) := hupper
      _ = 2 ^ (m.log2 + 1 : ℤ) := by
          rw [Nat.cast_pow, ← zpow_natCast]
          push_cast
          rfl
  have hexponents := (zpow_lt_zpow_iff_right₀ one_lt_two).mp hless
  omega

theorem mul_positive (h₁ : 0 < m₁) (h₂ : 0 < m₂) :
    mul .binary64 (.finite .positive m₁ e₁ h₁) (.finite .positive m₂ e₂ h₂) =
      roundWithAccuracy .binary64 .positive (m₁ * m₂) (e₁ + e₂) .exact := rfl

/-- Reading without a short cut goes through one product or one quotient of integers. -/
theorem ofScientific_model_nearest (hm : 0 < m) (hbounds : 2 ^ t ≤ (m : ℚ) / 10 ^ f ∧
    (m : ℚ) / 10 ^ f < 2 ^ (t + 1)) (ht : -1022 ≤ t) (ht' : t ≤ 1022) :
    IsNearestFloat (ofScientific .binary64 m (Int.negOfNat f)) (m / 10 ^ f) := by
  have hf := le_log2_of_bounds hbounds.1 ht
  have hbits : Format.binary64.exponentBits = 11 := rfl
  have hdigits : Format.binary64.mantissaBits = 53 := rfl
  have hneg : Int.negOfNat f = -(f : ℤ) := Int.negOfNat_eq
  rw [ofScientific, dif_neg hm.ne', hneg, hbits, if_neg (by omega), if_neg (by omega)]
  split
  · next hzero =>
    obtain rfl : f = 0 := by omega
    have hlog : (m.log2 : ℤ) < t + 1 := by
      have hlower := (zpow_log2 hm 0).1
      have hupper := hbounds.2
      rw [zpow_zero, mul_one, add_zero] at hlower
      rw [pow_zero, div_one] at hupper
      exact (zpow_lt_zpow_iff_right₀ one_lt_two).mp (hlower.trans_lt hupper)
    have hnearest := roundWithAccuracy_shifted hm (k := 53) (by omega) (by omega)
    have hten : 10 ^ (-((0 : ℕ) : ℤ)).toNat = 1 := rfl
    rw [mul_positive, hdigits, Nat.shiftLeft_eq, hten, mul_one, add_zero, pow_zero, div_one]
    exact hnearest
  · have hexponent : (- -(f : ℤ)).toNat = f := by omega
    refine div_nearest _ _ ?_ hbounds ht ht'
    rw [hexponent, zpow_zero, mul_one, mul_one, Nat.cast_pow, Nat.cast_ofNat]

/-- **A numeral is read as the nearest float**, in the normal range. -/
theorem ofScientific_nearest (hm : 0 < m) (hbounds : 2 ^ t ≤ (m : ℚ) / 10 ^ f ∧
    (m : ℚ) / 10 ^ f < 2 ^ (t + 1)) (ht : -1022 ≤ t) (ht' : t ≤ 1022) :
    IsNearestFloat (Float.ofScientific m true f).toModel.unpack (m / 10 ^ f) := by
  unfold Float.ofScientific
  split
  · next hsmall =>
    obtain ⟨m₁, e₁, h₁, hunpack₁, hvalue₁⟩ := hasValue_toFloat hm hsmall.1
    obtain ⟨m₂, e₂, h₂, hunpack₂, hvalue₂⟩ := hasValue_powerOfTen (f := f) (by
      simp [Float.exactlyRepresentablePowersOfTen]
      omega)
    show IsNearestFloat (Float.Model.pack (div .binary64 _ _)).unpack _
    rw [hunpack₁, hunpack₂]
    have hnearest := div_nearest h₁ h₂ (by rw [hvalue₁, hvalue₂]) hbounds ht ht'
    rw [hnearest.unpack_pack]
    exact hnearest
  · have hnearest := ofScientific_model_nearest hm hbounds ht ht'
    show IsNearestFloat
      (Float.Model.pack (ofScientific .binary64 m (Int.negOfNat f))).unpack _
    rw [hnearest.unpack_pack]
    exact hnearest

end Reckoner.Number
