import Mathlib
import Reckoner.Proofs.Number.Exact

/-!
# Reckoner.Proofs.Number.Sign -- floats with the sign changed

A change of sign touches one bit of a float and nothing else. So it can be undone, it leaves a float
finite, infinite or not a number, and a product follows the signs of its factors. Comparisons look
at signs too, but not at that of a zero.
-/

namespace Reckoner.Number

open Float.Model (Format UnpackedFloat)
open Float.Model.UnpackedFloat

/-! ## Bits -/

/-- The bits of a float with the other sign. -/
def flipped (b : BitVec Format.binary64.numBits) : BitVec Format.binary64.numBits :=
  packComponents .binary64 (-Sign.ofBitVec (unpackSign b)) (unpackExponent b) (unpackMantissa b)

theorem unpack_flipped (b : BitVec Format.binary64.numBits) :
    unpack .binary64 (flipped b) = (unpack .binary64 b).neg := by
  unfold unpack
  simp only [flipped, unpackExponent_packComponents, unpackMantissa_packComponents,
    unpackSign_packComponents, Sign.ofBitVec_toBitVec]
  split
  · split <;> rfl
  split
  · split <;> rfl
  · rfl

/-- What is not a number is so by its exponent and its mantissa. -/
theorem isNaNBits_packComponents (s : Sign) (e : BitVec 11) (m : BitVec 52) :
    isNaNBits (packComponents .binary64 s e m) = decide (e = -1#11 ∧ m ≠ 0#52) := by
  simp only [isNaNBits, unpackExponent_packComponents, unpackMantissa_packComponents]

/-- A sign that is changed before packing is the sign of the bits. -/
theorem pack_neg_unpack {b : BitVec Format.binary64.numBits} (h : isNaNBits b = false) :
    pack .binary64 (unpack .binary64 b).neg = flipped b := by
  have hflipped : isNaNBits (flipped b) = false := by
    rw [flipped, isNaNBits_packComponents]
    exact h
  rw [← unpack_flipped, pack_unpack, hflipped]
  rfl

theorem flipped_packComponents (s : Sign) (e : BitVec 11) (m : BitVec 52) :
    flipped (packComponents .binary64 s e m) = packComponents .binary64 (-s) e m := by
  rw [flipped, unpackSign_packComponents, unpackExponent_packComponents,
    unpackMantissa_packComponents, Sign.ofBitVec_toBitVec]

/-- The components of what is packed, whatever its sign is. -/
theorem pack_components {u : UnpackedFloat} (hu : u ≠ .notANumber) : ∃ s e m,
    pack .binary64 u = packComponents .binary64 s e m ∧
      pack .binary64 u.neg = packComponents .binary64 (-s) e m ∧ (e = -1#11 → m = 0#52) := by
  cases u with
  | notANumber => exact absurd rfl hu
  | infinity s => exact ⟨s, _, _, rfl, rfl, fun _ => rfl⟩
  | zero s => exact ⟨s, _, _, rfl, rfl, fun _ => rfl⟩
  | finite s m e h =>
      unfold pack UnpackedFloat.neg
      simp only
      split
      · exact ⟨s, _, _, rfl, rfl, fun _ => rfl⟩
      next hfits =>
      split
      · refine ⟨s, _, _, rfl, rfl, ?_⟩
        intro hones
        -- the exponent of a finite float is not the greatest there is
        have htoNat := congrArg BitVec.toNat hones
        have hall : (-1#11).toNat = 2047 := rfl
        rw [BitVec.toNat_ofNat, hall] at htoNat
        omega
      · refine ⟨s, _, _, rfl, rfl, ?_⟩
        intro hones
        cases hones

/-- A sign that is changed before packing is the sign of the bits. -/
theorem pack_neg {u : UnpackedFloat} (hu : u ≠ .notANumber) :
    pack .binary64 (unpack .binary64 (pack .binary64 u)).neg = pack .binary64 u.neg := by
  obtain ⟨s, e, m, hpack, hneg, hfinite⟩ := pack_components hu
  rw [hpack, hneg, pack_neg_unpack, flipped_packComponents]
  rw [isNaNBits_packComponents]
  exact decide_eq_false fun h => h.2 (hfinite h.1)

/-! ## Floats -/

theorem unpack_neg (x : Float) : (-x).toModel.unpack = x.toModel.unpack.neg := by
  let b : BitVec Format.binary64.numBits := x.toModel.toBits.toBitVec
  show unpack .binary64 (pack .binary64 (unpack .binary64 b).neg) = (unpack .binary64 b).neg
  cases hnan : isNaNBits b with
  | false => rw [pack_neg_unpack hnan, unpack_flipped]
  | true =>
      have hpack := pack_unpack b
      rw [hnan, if_pos rfl] at hpack
      have hunpack : unpack .binary64 b = .notANumber := by
        rw [isNaNBits, decide_eq_true_eq] at hnan
        simp only [unpack, if_pos hnan.1, if_neg hnan.2]
      rw [hunpack]
      exact unpack_packedNaN

/-- Floats with the same unpacked form are the same. -/
theorem eq_of_unpack {x y : Float} (h : x.toModel.unpack = y.toModel.unpack) : x = y := by
  apply Float.toBits_inj.mp
  apply UInt64.toBitVec_inj.mp
  exact (unpack_inj_of_valid x.toModel.valid y.toModel.valid).mp h

protected theorem neg_neg (x : Float) : - -x = x := by
  apply eq_of_unpack
  rw [unpack_neg, unpack_neg]
  cases x.toModel.unpack with
  | notANumber => rfl
  | infinity s => cases s <;> rfl
  | zero s => cases s <;> rfl
  | finite s m e h => cases s <;> rfl

/-- A sign can be changed before a number is packed. -/
theorem neg_ofModel_pack (u : UnpackedFloat) :
    -Float.ofModel (.pack u) = Float.ofModel (.pack u.neg) := by
  apply Float.toBits_inj.mp
  apply UInt64.toBitVec_inj.mp
  show pack .binary64 (unpack .binary64 (pack .binary64 u)).neg = pack .binary64 u.neg
  by_cases hu : u = .notANumber
  · rw [hu]
    exact congrArg (pack .binary64 ·.neg) unpack_packedNaN
  · exact pack_neg hu

/-- The absolute value has the sign changed if it is negative. -/
theorem unpack_abs (x : Float) : x.abs.toModel.unpack = x.toModel.unpack.abs := by
  have hcases : x.toModel.unpack.abs = x.toModel.unpack ∨
      x.toModel.unpack.abs = x.toModel.unpack.neg := by
    cases x.toModel.unpack with
    | notANumber => exact .inl rfl
    | infinity s =>
        cases s with
        | positive => exact .inl rfl
        | negative => exact .inr rfl
    | zero s =>
        cases s with
        | positive => exact .inl rfl
        | negative => exact .inr rfl
    | finite s m e h =>
        cases s with
        | positive => exact .inl rfl
        | negative => exact .inr rfl
  show (Float.Model.pack x.toModel.unpack.abs).unpack = _
  rcases hcases with hsame | hneg
  · rw [hsame]
    exact congrArg (unpack .binary64) (pack_unpack_of_valid x.toModel.valid)
  · rw [hneg]
    exact unpack_neg x

section Status

variable (x : Float)

@[simp] protected theorem isNaN_neg : (-x).isNaN = x.isNaN := by
  show (-x).toModel.unpack.isNaN = x.toModel.unpack.isNaN
  rw [unpack_neg]
  cases x.toModel.unpack <;> rfl

@[simp] protected theorem isInf_neg : (-x).isInf = x.isInf := by
  show (-x).toModel.unpack.isInf = x.toModel.unpack.isInf
  rw [unpack_neg]
  cases x.toModel.unpack <;> rfl

@[simp] protected theorem isFinite_neg : (-x).isFinite = x.isFinite := by
  rw [isFinite_eq_unpack, isFinite_eq_unpack, unpack_neg]
  cases x.toModel.unpack <;> rfl

@[simp] protected theorem abs_neg : (-x).abs = x.abs := by
  show Float.ofModel (.pack (-x).toModel.unpack.abs) = Float.ofModel (.pack x.toModel.unpack.abs)
  rw [unpack_neg]
  cases x.toModel.unpack <;> rfl

end Status

/-! ## Comparisons -/

theorem unpack_zero : (0 : Float).toModel.unpack = .zero .positive := rfl

theorem lt_iff_unpack (x y : Float) : x < y ↔ x.toModel.unpack.lt y.toModel.unpack = true := by
  show decide _ = true ↔ _
  rw [decide_eq_true_eq]
  rfl

theorem le_iff_unpack (x y : Float) : x ≤ y ↔ x.toModel.unpack.le y.toModel.unpack = true := by
  show decide _ = true ↔ _
  rw [decide_eq_true_eq]
  rfl

/-- What is equal to zero is one of the two zeros. -/
theorem beq_zero_iff (x : Float) : (x == 0) = true ↔ ∃ s, x.toModel.unpack = .zero s := by
  show x.toModel.unpack.beq (0 : Float).toModel.unpack = true ↔ _
  rw [unpack_zero]
  cases x.toModel.unpack with
  | zero s => exact iff_of_true rfl ⟨s, rfl⟩
  | notANumber => simp [UnpackedFloat.beq, UnpackedFloat.compare]
  | infinity s => cases s <;> simp [UnpackedFloat.beq, UnpackedFloat.compare]
  | finite s m e h => cases s <;> simp [UnpackedFloat.beq, UnpackedFloat.compare]

/-! ## Products -/

theorem roundWithAccuracy_neg (s : Sign) (m : ℕ) (e : ℤ) (acc : Accuracy) :
    roundWithAccuracy .binary64 (-s) m e acc = (roundWithAccuracy .binary64 s m e acc).neg := by
  unfold roundWithAccuracy
  simp only
  split <;> rfl

/-- The sign of a product follows that of its first factor. -/
theorem mul_neg_left (u v : UnpackedFloat) : mul .binary64 u.neg v = (mul .binary64 u v).neg := by
  have hsign (s s' : Sign) : -s * s' = -(s * s') := by cases s <;> cases s' <;> rfl
  cases u with
  | notANumber => rfl
  | infinity s =>
      cases v with
      | notANumber => rfl
      | zero s' => rfl
      | infinity s' => exact congrArg UnpackedFloat.infinity (hsign s s')
      | finite s' m e h => exact congrArg UnpackedFloat.infinity (hsign s s')
  | zero s =>
      cases v with
      | notANumber => rfl
      | infinity s' => rfl
      | zero s' => exact congrArg UnpackedFloat.zero (hsign s s')
      | finite s' m e h => exact congrArg UnpackedFloat.zero (hsign s s')
  | finite s m e h =>
      cases v with
      | notANumber => rfl
      | infinity s' => exact congrArg UnpackedFloat.infinity (hsign s s')
      | zero s' => exact congrArg UnpackedFloat.zero (hsign s s')
      | finite s' m' e' h' =>
          show roundWithAccuracy .binary64 (-s * s') (m * m') (e + e') .exact = _
          rw [hsign, roundWithAccuracy_neg]
          rfl

protected theorem neg_mul (x y : Float) : -x * y = -(x * y) := by
  show Float.ofModel (.pack (mul .binary64 (-x).toModel.unpack y.toModel.unpack)) =
    -Float.ofModel (.pack (mul .binary64 x.toModel.unpack y.toModel.unpack))
  rw [unpack_neg, mul_neg_left, neg_ofModel_pack]

end Reckoner.Number
