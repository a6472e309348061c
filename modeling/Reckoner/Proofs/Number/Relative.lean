import Mathlib
import Reckoner.Proofs.Number.Rounded

/-!
# Reckoner.Proofs.Number.Relative -- products and quotients one after another

Each rounding changes a number by a small part of itself at most, and products and quotients pass
such changes on. So the result of a row of products and quotients is close to the exact one, as long
as everything on the way stays in the normal range. It does if the operands are far enough from the
ends of the range: an operation moves a number no further than its other operand reaches, and one
rounding less than a power of two.
-/

namespace Reckoner.Number

open Float.Model.UnpackedFloat (Sign)

variable {a b c t : ℚ} {j k : ℕ}

/-! ## Relative errors -/

/-- The greatest part of itself that a rounding changes a number by. -/
def roundoff : ℚ := 1 / 2 ^ 53

/-- Whether the positive number `c` is what `t` can be after so many roundings. -/
structure Close (k : ℕ) (t c : ℚ) : Prop where
  lower : (1 - roundoff) ^ k * t ≤ c
  upper : c ≤ (1 + roundoff) ^ k * t

theorem IsRounded.close (h : IsRounded t c) : Close 1 t c := by
  obtain ⟨hlower, hupper⟩ := abs_le.mp h.abs_sub_le
  have hpart : t / 2 ^ 53 = roundoff * t := by
    rw [roundoff]
    ring
  rw [hpart] at hlower hupper
  constructor <;> linarith

namespace Close

/-- Roundings one after another. -/
theorem trans (h : Close j a b) (h' : Close k b c) : Close (j + k) a c where
  lower := by
    have hshrink : (0 : ℚ) ≤ 1 - roundoff := by norm_num [roundoff]
    calc (1 - roundoff) ^ (j + k) * a = (1 - roundoff) ^ k * ((1 - roundoff) ^ j * a) := by ring
      _ ≤ (1 - roundoff) ^ k * b := by gcongr; exact h.lower
      _ ≤ c := h'.lower
  upper := by
    have hgrow : (0 : ℚ) ≤ 1 + roundoff := by norm_num [roundoff]
    calc c ≤ (1 + roundoff) ^ k * b := h'.upper
      _ ≤ (1 + roundoff) ^ k * ((1 + roundoff) ^ j * a) := by gcongr; exact h.upper
      _ = (1 + roundoff) ^ (j + k) * a := by ring

/-- A product passes a change on. -/
theorem mul (h : Close k a b) (hc : 0 ≤ c) : Close k (a * c) (b * c) where
  lower := by
    rw [← mul_assoc]
    exact mul_le_mul_of_nonneg_right h.lower hc
  upper := by
    rw [← mul_assoc]
    exact mul_le_mul_of_nonneg_right h.upper hc

/-- A quotient passes a change on. -/
theorem div (h : Close k a b) (hc : 0 ≤ c) : Close k (a / c) (b / c) := by
  rw [div_eq_mul_inv, div_eq_mul_inv]
  exact h.mul (inv_nonneg.mpr hc)

end Close

/-! ## Magnitudes -/

/-- Whether a number is positive and at most so many powers of two away from one. -/
structure Between (k : ℕ) (a : ℚ) : Prop where
  lower : 2 ^ (-k : ℤ) ≤ a
  upper : a ≤ 2 ^ (k : ℤ)

namespace Between

theorem pos (h : Between k a) : 0 < a := lt_of_lt_of_le (by positivity) h.lower

theorem mul (h : Between j a) (h' : Between k b) : Between (j + k) (a * b) where
  lower := by
    have hpos := h.pos
    rw [Nat.cast_add, neg_add, zpow_add₀ two_ne_zero]
    gcongr
    · exact h.lower
    · exact h'.lower
  upper := by
    have hpos := h'.pos
    rw [Nat.cast_add, zpow_add₀ two_ne_zero]
    gcongr
    · exact h.upper
    · exact h'.upper

theorem inv (h : Between k a) : Between k a⁻¹ where
  lower := by
    rw [zpow_neg]
    exact inv_anti₀ h.pos h.upper
  upper := by
    have hle := inv_anti₀ (by positivity) h.lower
    rwa [← zpow_neg, neg_neg] at hle

theorem div (h : Between j a) (h' : Between k b) : Between (j + k) (a / b) := by
  rw [div_eq_mul_inv]
  exact h.mul h'.inv

/-- A rounding moves a number by less than a power of two. -/
theorem close (h : Between k t) (hc : Close 1 t c) : Between (k + 1) c where
  lower := by
    have hhalf : (1 : ℚ) / 2 ≤ (1 - roundoff) ^ 1 := by norm_num [roundoff]
    calc (2 : ℚ) ^ (-(k + 1 : ℕ) : ℤ) = 1 / 2 * 2 ^ (-k : ℤ) := by
          rw [Nat.cast_add, neg_add, zpow_add₀ two_ne_zero]
          norm_num
          ring
      _ ≤ (1 - roundoff) ^ 1 * t := by
          gcongr
          exact h.lower
      _ ≤ c := hc.lower
  upper := by
    have htwo : (1 + roundoff) ^ 1 ≤ 2 := by norm_num [roundoff]
    have hpos := h.pos
    calc c ≤ (1 + roundoff) ^ 1 * t := hc.upper
      _ ≤ 2 * 2 ^ (k : ℤ) := by
          gcongr
          exact h.upper
      _ = 2 ^ ((k + 1 : ℕ) : ℤ) := by
          rw [Nat.cast_add, zpow_add₀ two_ne_zero]
          norm_num
          ring

end Between

/-! ## Operations -/

/-- A float that is exactly the positive number `a` with some sign. -/
def HasMagnitude (x : Float) (s : Sign) (a : ℚ) : Prop :=
  ∃ m e h, x.toModel.unpack = .finite s m e h ∧ (m : ℚ) * 2 ^ e = a

variable {x y : Float} {s s' : Sign}

theorem HasMagnitude.denotes (h : HasMagnitude x s a) : Denotes x (signed s a) := by
  obtain ⟨m, e, hm, hunpack, rfl⟩ := h
  exact denotes_of_unpack hunpack

/-- A result that is rounded in the middle of the range. -/
theorem Rounds.hasMagnitude (h : Rounds x.toModel.unpack s t) (ht : Between k t)
    (hk : k ≤ 1022) : ∃ c, HasMagnitude x s c ∧ Close 1 t c ∧ Between (k + 1) c := by
  obtain ⟨c, hrounded, hsmall, -⟩ := h
  have hbetween := ht.close hrounded.close
  have hlt : c < 2 ^ (1024 : ℤ) := by
    calc c ≤ 2 ^ ((k + 1 : ℕ) : ℤ) := hbetween.upper
      _ < 2 ^ (1024 : ℤ) := zpow_lt_zpow_right₀ one_lt_two (by omega)
  obtain ⟨m, e, hm, hunpack, -, hvalue⟩ := hsmall hlt
  exact ⟨c, ⟨m, e, hm, hunpack, hvalue⟩, hrounded.close, hbetween⟩

/-- What is far from the ends of the range is normal. -/
theorem Between.zpow_le (h : Between k a) (hk : k ≤ 1022) : (2 : ℚ) ^ (-1022 : ℤ) ≤ a := by
  calc (2 : ℚ) ^ (-1022 : ℤ) ≤ 2 ^ (-k : ℤ) := zpow_le_zpow_right₀ one_le_two (by omega)
    _ ≤ a := h.lower

theorem HasMagnitude.mul (hx : HasMagnitude x s a) (ha : Between j a)
    (hy : HasMagnitude y s' b) (hb : Between k b) (hjk : j + k ≤ 1022) :
    ∃ c, HasMagnitude (x * y) (s * s') c ∧ Close 1 (a * b) c ∧ Between (j + k + 1) c := by
  obtain ⟨m, e, h, hunpack, rfl⟩ := hx
  obtain ⟨m', e', h', hunpack', rfl⟩ := hy
  have hnormal := normal_of_le hunpack (ha.zpow_le (by omega))
  have hab := ha.mul hb
  exact (mul_rounds hunpack hunpack' hnormal.le_mantissa (hab.zpow_le hjk)).hasMagnitude hab hjk

theorem HasMagnitude.div (hx : HasMagnitude x s a) (ha : Between j a)
    (hy : HasMagnitude y s' b) (hb : Between k b) (hjk : j + k ≤ 1022) :
    ∃ c, HasMagnitude (x / y) (s / s') c ∧ Close 1 (a / b) c ∧ Between (j + k + 1) c := by
  obtain ⟨m, e, h, hunpack, rfl⟩ := hx
  obtain ⟨m', e', h', hunpack', rfl⟩ := hy
  have hab := ha.div hb
  exact (div_rounds hunpack hunpack' (hab.zpow_le hjk)).hasMagnitude hab hjk

/-- A zero times a number, and divided by one, is a zero. -/
theorem unpack_mul_of_zero (hx : x.toModel.unpack = .zero s) (hy : HasMagnitude y s' b) :
    (x * y).toModel.unpack = .zero (s * s') := by
  obtain ⟨m, e, h, hunpack, -⟩ := hy
  show (Float.Model.pack (Float.Model.UnpackedFloat.mul .binary64 x.toModel.unpack
    y.toModel.unpack)).unpack = _
  rw [hx, hunpack]
  exact Float.Model.UnpackedFloat.unpack_packedZero

theorem unpack_div_of_zero (hx : x.toModel.unpack = .zero s) (hy : HasMagnitude y s' b) :
    (x / y).toModel.unpack = .zero (s / s') := by
  obtain ⟨m, e, h, hunpack, -⟩ := hy
  show (Float.Model.pack (Float.Model.UnpackedFloat.div .binary64 x.toModel.unpack
    y.toModel.unpack)).unpack = _
  rw [hx, hunpack]
  exact Float.Model.UnpackedFloat.unpack_packedZero

end Reckoner.Number
