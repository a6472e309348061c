import Mathlib
import Reckoner.Proofs.Number.Exact
import Reckoner.Proofs.Number.Mantissa

/-!
# Reckoner.Proofs.Number.Nearest -- the float nearest to a number

In the normal range a float is packed without loss, and rounding to its digits gives a float that
no other is nearer than: those of a higher decade lie on the same grid, and those of a lower one
are too far away.
-/

namespace Reckoner.Number

open Float.Model (Format)
open Float.Model.UnpackedFloat

/-! ## Packing -/

/-- A mantissa of fifty-three digits is its first digit and the others. -/
theorem toNat_append_ofNat {m : ℕ} (hlower : 2 ^ 52 ≤ m) (hupper : m < 2 ^ 53) :
    (1#1 ++ BitVec.ofNat 52 m).toNat = m := by
  rw [BitVec.toNat_append, ← Nat.shiftLeft_add_eq_or_of_lt (BitVec.isLt _), BitVec.toNat_ofNat,
    BitVec.toNat_ofNat, Nat.shiftLeft_eq]
  omega

/-- A mantissa and an exponent in the normal range: all fifty-three digits of the mantissa count. -/
structure Normal (m : ℕ) (e : ℤ) : Prop where
  le_mantissa : 2 ^ 52 ≤ m
  mantissa_lt : m < 2 ^ 53
  le_exponent : -1074 ≤ e
  exponent_le : e ≤ 971

/-- A number in the normal range is unpacked as it was packed. -/
theorem unpack_pack {s : Sign} {m : ℕ} {e : ℤ} {h : 0 < m} (hnormal : Normal m e) :
    unpack .binary64 (pack .binary64 (.finite s m e h)) = .finite s m e h := by
  obtain ⟨hlower, hupper, hleast, hmost⟩ := hnormal
  have hlog : m.log2 = 52 := log2_eq hlower hupper
  have hbias : Format.binary64.exponentBias = 1023 := rfl
  have hbits : Format.binary64.mantissaBits = 53 := rfl
  obtain ⟨b, hb⟩ := Int.eq_ofNat_of_zero_le (show 0 ≤ e + 1075 by omega)
  have hbiased : (e + Format.binary64.exponentBias +
      Format.binary64.mantissaBitsWithoutImplicit).toNat = b := by
    show (e + (1023 : ℕ) + (52 : ℕ)).toNat = b
    omega
  have hpack : pack .binary64 (.finite s m e h) =
      packComponents .binary64 s (BitVec.ofNat 11 b) (BitVec.ofNat 52 m) := by
    simp only [pack, hbiased, hlog, hbits]
    rw [if_neg (show ¬ 2 ^ 11 ≤ b + 1 by omega), if_pos trivial]
  have htoNat : (BitVec.ofNat 11 b).toNat = b := Nat.mod_eq_of_lt (by omega)
  have hinfinity : BitVec.ofNat 11 b ≠ -1#11 := by
    intro heq
    have := congrArg BitVec.toNat heq
    rw [htoNat] at this
    have hones : (-1#11).toNat = 2047 := rfl
    omega
  have hsubnormal : BitVec.ofNat 11 b ≠ 0#11 := by
    intro heq
    have := congrArg BitVec.toNat heq
    rw [htoNat, BitVec.toNat_zero] at this
    omega
  rw [hpack]
  simp only [unpack, unpackMantissa_packComponents, unpackExponent_packComponents,
    unpackSign_packComponents, Sign.ofBitVec_toBitVec, if_neg hinfinity, if_neg hsubnormal, htoNat,
    hbias]
  congr 1
  · exact toNat_append_ofNat hlower hupper
  · omega

/-- A finite float is in the normal range, or it has the least exponent and fewer digits. -/
theorem normal_or_subnormal {b : BitVec Format.binary64.numBits} {s : Sign} {m : ℕ} {e : ℤ}
    {h : 0 < m} (hb : unpack .binary64 b = .finite s m e h) :
    Normal m e ∨ m < 2 ^ 52 ∧ e = -1074 := by
  have hbias : Format.binary64.exponentBias = 1023 := rfl
  unfold unpack at hb
  simp only [hbias] at hb
  split at hb
  · split at hb <;> cases hb
  next hones =>
  split at hb
  · next hzero =>
    split at hb
    · cases hb
    · injection hb with _ hm he
      rw [hzero] at he
      exact .inr ⟨hm ▸ (unpackMantissa b).isLt, he.symm⟩
  · next hsome =>
    injection hb with _ hm he
    have hfirst : (1#1 ++ unpackMantissa b).toNat = 2 ^ 52 + (unpackMantissa b).toNat := by
      rw [BitVec.toNat_append, ← Nat.shiftLeft_add_eq_or_of_lt (BitVec.isLt _), Nat.shiftLeft_eq]
      rfl
    have hdigits : (unpackMantissa b).toNat < 2 ^ 52 := (unpackMantissa b).isLt
    have hfield : (unpackExponent b).toNat < 2 ^ 11 := (unpackExponent b).isLt
    have hmost : (unpackExponent b).toNat ≠ 2047 := fun h => hones (BitVec.eq_of_toNat_eq h)
    have hleast : (unpackExponent b).toNat ≠ 0 := fun h => hsome (BitVec.eq_of_toNat_eq h)
    have hexponent : e = (unpackExponent b).toNat - 1075 := he.symm
    rw [hfirst] at hm
    exact .inl ⟨by omega, by omega, by omega, by omega⟩

/-- The mantissa of a finite float has at most fifty-three digits. -/
theorem mantissa_lt {b : BitVec Format.binary64.numBits} {s : Sign} {m : ℕ} {e : ℤ} {h : 0 < m}
    (hb : unpack .binary64 b = .finite s m e h) : m < 2 ^ 53 := by
  rcases normal_or_subnormal hb with hnormal | ⟨hshort, -⟩
  · exact hnormal.mantissa_lt
  · omega

/-! ## The nearest float -/

/-- An unpacked number in the normal range that is a float nearest to `v`. -/
def IsNearestFloat (u : Float.Model.UnpackedFloat) (v : ℚ) : Prop :=
  ∃ m e h, u = .finite .positive m e h ∧ Normal m e ∧
    ∀ (m' : ℕ) (e' : ℤ), m' < 2 ^ 53 → |v - m * 2 ^ e| ≤ |v - m' * 2 ^ e'|

variable {v : ℚ} {t e : ℤ} {m n : ℕ}

/-- Of the numbers with fifty-three binary digits, those of a higher decade lie on the same grid,
and those of a lower one more than half a unit below it. -/
theorem nearest_of_isNearestEven (hv : 2 ^ t ≤ v ∧ v < 2 ^ (t + 1))
    (hn : IsNearestEven (v / 2 ^ (t - 52)) n) (hm : m < 2 ^ 53) (e : ℤ) :
    |v - n * 2 ^ (t - 52)| ≤ |v - m * 2 ^ e| := by
  have hunit : (0 : ℚ) < 2 ^ (t - 52) := by positivity
  have hscale (w : ℚ) : |v - w * 2 ^ (t - 52)| = |v / 2 ^ (t - 52) - w| * 2 ^ (t - 52) := by
    rw [← abs_of_pos hunit, ← abs_mul, abs_of_pos hunit, sub_mul, div_mul_cancel₀ _ hunit.ne']
  have hother : (m : ℚ) * 2 ^ e = m * 2 ^ (e - (t - 52)) * 2 ^ (t - 52) := by
    rw [mul_assoc, ← zpow_add₀ two_ne_zero, sub_add_cancel]
  rw [hother, hscale, hscale]
  refine mul_le_mul_of_nonneg_right ?_ hunit.le
  rcases le_or_gt (t - 52) e with hle | hlt
  · obtain ⟨k, hk⟩ := Int.eq_ofNat_of_zero_le (show 0 ≤ e - (t - 52) by omega)
    have hgrid : (m : ℚ) * 2 ^ (e - (t - 52)) = (m * 2 ^ k : ℕ) := by
      rw [hk, Nat.cast_mul, Nat.cast_pow, Nat.cast_ofNat]
      rfl
    rw [hgrid]
    exact hn.abs_sub_le_abs_sub _
  · have hleast := (unit_bounds hv).1
    have hhalf : (2 : ℚ) ^ (e - (t - 52)) ≤ 1 / 2 := by
      calc (2 : ℚ) ^ (e - (t - 52)) ≤ 2 ^ (-1 : ℤ) :=
            zpow_le_zpow_right₀ one_le_two (by omega)
        _ = 1 / 2 := by norm_num
    have hmost : (m : ℚ) + 1 ≤ 2 ^ 53 := by exact_mod_cast hm
    have hbelow : (m : ℚ) * 2 ^ (e - (t - 52)) ≤ 2 ^ 52 - 1 / 2 := by
      calc (m : ℚ) * 2 ^ (e - (t - 52)) ≤ m * (1 / 2) := by gcongr
        _ ≤ (2 ^ 53 - 1) * (1 / 2) := by gcongr; linarith
        _ = 2 ^ 52 - 1 / 2 := by norm_num
    push_cast at hleast
    refine hn.1.trans (le_trans ?_ (le_abs_self _))
    linarith

/-- Rounding into the format gives a nearest float. -/
theorem roundWithAccuracy_nearest {acc : Accuracy}
    (hloc : Locates (.ofMantissaAndAccuracy m acc) (v / 2 ^ e))
    (hv : 2 ^ t ≤ v ∧ v < 2 ^ (t + 1)) (he : e ≤ t - 52) (ht : -1022 ≤ t) (ht' : t ≤ 1022) :
    IsNearestFloat (roundWithAccuracy .binary64 .positive m e acc) v := by
  obtain ⟨n, hn, m', e', h, hround, hlower, hupper, hleast, hmost, hvalue⟩ :=
    roundWithAccuracy_spec .positive hloc hv he ht
  refine ⟨m', e', h, hround, ⟨hlower, hupper, by omega, by omega⟩, fun k l hk => ?_⟩
  rw [hvalue]
  exact nearest_of_isNearestEven hv hn hk l

/-- A number with at most fifty-three binary digits is its own nearest float. -/
theorem IsNearestFloat.eq {u : Float.Model.UnpackedFloat} (h : IsNearestFloat u v)
    (hm : m < 2 ^ 53) (hv : v = m * 2 ^ e) :
    ∃ m' e' h', u = .finite .positive m' e' h' ∧ (m' : ℚ) * 2 ^ e' = v := by
  obtain ⟨m', e', h', hu, -, hnearest⟩ := h
  refine ⟨m', e', h', hu, ?_⟩
  have hzero := hnearest m e hm
  rw [← hv, sub_self, abs_zero, abs_nonpos_iff, sub_eq_zero] at hzero
  exact hzero.symm

end Reckoner.Number
