import Mathlib
import Reckoner.Proofs.Number.Decimal

/-!
# Reckoner.Proofs.Number.Exact -- the numbers that floats denote

The exact value of a finite float is its mantissa times a power of two, on whichever side of a
fraction the power has no sign. So a finite float denotes one number, sign and all. It is a zero, or
its mantissa times a power of two with the sign of the float; and it is an integer if the float
stands for one.
-/

namespace Reckoner.Number

open Float.Model.UnpackedFloat (Sign)

/-! ## Exact values -/

variable {x : Float} {v : Exact}

/-- The value of a mantissa and an exponent. -/
def Exact.ofFinite (s : Sign) (m : ℕ) (e : ℤ) : Exact :=
  ⟨s == .negative, m * Nat.pow 2 e.toNat, Nat.pow 2 (-e).toNat⟩

theorem Exact.num_ofFinite_pos {s : Sign} {m : ℕ} {e : ℤ} (hm : 0 < m) :
    0 < (ofFinite s m e).num :=
  Nat.mul_pos hm (Nat.pow_pos (by omega))

theorem Exact.magnitude_ofFinite (s : Sign) (m : ℕ) (e : ℤ) :
    (ofFinite s m e).magnitude = m * 2 ^ e := by
  have hpow (n : ℕ) : ((Nat.pow 2 n : ℕ) : ℚ) = 2 ^ n := by exact_mod_cast rfl
  rw [magnitude, ofFinite, Nat.cast_mul, hpow, hpow]
  obtain ⟨n, rfl | rfl⟩ := e.eq_nat_or_neg
  · rw [Int.toNat_natCast, Int.toNat_neg_natCast, zpow_natCast, pow_zero, div_one]
  · rw [neg_neg, Int.toNat_natCast, Int.toNat_neg_natCast, zpow_neg, zpow_natCast, pow_zero,
      mul_one, div_eq_mul_inv]

/-- A float with an exact value is a zero or a mantissa with an exponent. -/
theorem exactValue?_cases (hx : exactValue? x = some v) :
    (∃ s, x.toModel.unpack = .zero s ∧ v.num = 0 ∧ v.den = 1) ∨
      ∃ s m e h, x.toModel.unpack = .finite s m e h ∧ v = .ofFinite s m e := by
  cases hunpack : x.toModel.unpack with
  | zero s =>
      rw [exactValue?, hunpack] at hx
      obtain rfl := Option.some.inj hx
      exact .inl ⟨s, rfl, rfl, rfl⟩
  | finite s m e h =>
      rw [exactValue?, hunpack] at hx
      obtain rfl := Option.some.inj hx
      exact .inr ⟨s, m, e, h, rfl, rfl⟩
  | infinity s =>
      rw [exactValue?, hunpack] at hx
      cases hx
  | notANumber =>
      rw [exactValue?, hunpack] at hx
      cases hx

theorem exactValue?_of_unpack {s : Sign} {m : ℕ} {e : ℤ} {h : 0 < m}
    (hx : x.toModel.unpack = .finite s m e h) : exactValue? x = some (.ofFinite s m e) := by
  rw [exactValue?, hx]
  rfl

/-- A float with an exact value that is not zero is a mantissa with an exponent. -/
theorem unpack_of_exactValue? (hx : exactValue? x = some v) (hnum : v.num ≠ 0) :
    ∃ s m e h, x.toModel.unpack = .finite s m e h ∧ v = .ofFinite s m e :=
  (exactValue?_cases hx).resolve_left fun ⟨_, _, hzero, _⟩ => hnum hzero

theorem den_pos_of_exactValue? (hx : exactValue? x = some v) : 0 < v.den := by
  rcases exactValue?_cases hx with ⟨s, -, -, hden⟩ | ⟨s, m, e, h, -, rfl⟩
  · rw [hden]
    exact Nat.one_pos
  · exact Nat.pow_pos (by omega)

/-! ## Finite floats -/

theorem isFinite_eq_unpack (x : Float) : x.isFinite = x.toModel.unpack.isFinite := rfl

/-- A finite float has an exact value. -/
theorem exactValue?_of_isFinite (hx : x.isFinite = true) : ∃ v, exactValue? x = some v := by
  rw [isFinite_eq_unpack] at hx
  cases hunpack : x.toModel.unpack with
  | zero s => exact ⟨⟨s == .negative, 0, 1⟩, by rw [exactValue?, hunpack]⟩
  | finite s m e h => exact ⟨_, exactValue?_of_unpack hunpack⟩
  | infinity s =>
      rw [hunpack] at hx
      cases hx
  | notANumber =>
      rw [hunpack] at hx
      cases hx

theorem isFinite_of_exactValue? (hx : exactValue? x = some v) : x.isFinite = true := by
  rcases exactValue?_cases hx with ⟨s, hunpack, -⟩ | ⟨s, m, e, h, hunpack, -⟩ <;>
  · rw [isFinite_eq_unpack, hunpack]
    rfl

/-! ## Numbers with a sign -/

/-- The number that an exact value is. -/
def Exact.value (v : Exact) : ℚ := if v.negative then -v.magnitude else v.magnitude

/-- Whether a float is finite and has a number as its exact value. -/
def Denotes (x : Float) (q : ℚ) : Prop := ∃ v, exactValue? x = some v ∧ v.value = q

/-- A number with a sign. -/
def signed : Sign → ℚ → ℚ
  | .positive, q => q
  | .negative, q => -q

theorem abs_signed (s : Sign) {q : ℚ} (hq : 0 ≤ q) : |signed s q| = q := by
  cases s with
  | positive => exact abs_of_nonneg hq
  | negative => exact (abs_neg q).trans (abs_of_nonneg hq)

theorem abs_signed_sub (s : Sign) (p q : ℚ) : |signed s p - signed s q| = |p - q| := by
  cases s with
  | positive => rfl
  | negative =>
      show |-p - -q| = |p - q|
      rw [neg_sub_neg, abs_sub_comm]

variable {x : Float} {p q : ℚ} {s : Sign} {m : ℕ} {e : ℤ} {h : 0 < m}

theorem Denotes.unique (hp : Denotes x p) (hq : Denotes x q) : p = q := by
  obtain ⟨v, hv, rfl⟩ := hp
  obtain ⟨w, hw, rfl⟩ := hq
  rw [Option.some.inj (hv.symm.trans hw)]

theorem Denotes.isFinite (hq : Denotes x q) : x.isFinite = true := by
  obtain ⟨v, hv, -⟩ := hq
  exact isFinite_of_exactValue? hv

/-! ## Zeros and mantissas -/

theorem Exact.value_ofFinite (s : Sign) (m : ℕ) (e : ℤ) :
    (ofFinite s m e).value = signed s (m * 2 ^ e) := by
  rw [value, magnitude_ofFinite]
  cases s <;> rfl

theorem denotes_of_unpack (hx : x.toModel.unpack = .finite s m e h) :
    Denotes x (signed s (m * 2 ^ e)) :=
  ⟨_, exactValue?_of_unpack hx, Exact.value_ofFinite s m e⟩

theorem denotes_zero (hx : x.toModel.unpack = .zero s) : Denotes x 0 := by
  refine ⟨⟨s == .negative, 0, 1⟩, by rw [exactValue?, hx], ?_⟩
  simp [Exact.value, Exact.magnitude]

/-- A float that denotes zero is one of the zeros, and any other is a mantissa with an exponent. -/
theorem Denotes.cases (hq : Denotes x q) :
    (∃ s, x.toModel.unpack = .zero s ∧ q = 0) ∨
      ∃ s m e h, x.toModel.unpack = .finite s m e h ∧ q = signed s (m * 2 ^ e) := by
  obtain ⟨v, hv, -⟩ := id hq
  rcases exactValue?_cases hv with ⟨s, hunpack, -⟩ | ⟨s, m, e, h, hunpack, -⟩
  · exact .inl ⟨s, hunpack, hq.unique (denotes_zero hunpack)⟩
  · exact .inr ⟨s, m, e, h, hunpack, hq.unique (denotes_of_unpack hunpack)⟩

/-! ## Integers -/

/-- An exact value is an integer if its denominator divides its numerator. -/
theorem Exact.integer?_eq_some {v : Exact} (hden : 0 < v.den) {n : ℤ} :
    v.integer? = some n ↔ v.value = n := by
  have hden' : (v.den : ℚ) ≠ 0 := by exact_mod_cast hden.ne'
  by_cases hdivides : v.num % v.den = 0
  · have hnum : v.magnitude = ((v.num / v.den : ℕ) : ℤ) := by
      rw [Int.cast_natCast, magnitude, Nat.cast_div (Nat.dvd_of_mod_eq_zero hdivides) hden']
    rw [integer?, if_pos hdivides, value, hnum, Option.some.injEq]
    cases v.negative with
    | false => exact (Int.cast_inj (α := ℚ)).symm
    | true =>
        simp only [if_true]
        rw [← Int.cast_neg, Int.cast_inj]
  · rw [integer?, if_neg hdivides]
    apply iff_of_false (Option.some_ne_none n).symm
    intro hvalue
    -- the numerator would be a multiple of the denominator
    have hmagnitude : v.magnitude = (n.natAbs : ℚ) := by
      rw [Nat.cast_natAbs, Int.cast_abs, ← hvalue, value]
      have hpos : 0 ≤ v.magnitude := by
        rw [magnitude]
        positivity
      split
      · rw [abs_neg, abs_of_nonneg hpos]
      · rw [abs_of_nonneg hpos]
    rw [magnitude, div_eq_iff hden'] at hmagnitude
    have hnum : v.num = n.natAbs * v.den := by exact_mod_cast hmagnitude
    rw [hnum] at hdivides
    exact hdivides (Nat.mul_mod_left _ _)

/-- A float stands for the integer that it denotes. -/
theorem integer?_eq_some {n : ℤ} : integer? x = some n ↔ Denotes x n := by
  constructor
  · intro hn
    obtain ⟨v, hv, hinteger⟩ := Option.bind_eq_some_iff.mp hn
    exact ⟨v, hv, (Exact.integer?_eq_some (den_pos_of_exactValue? hv)).mp hinteger⟩
  · rintro ⟨v, hv, hvalue⟩
    apply Option.bind_eq_some_iff.mpr
    exact ⟨v, hv, (Exact.integer?_eq_some (den_pos_of_exactValue? hv)).mpr hvalue⟩

end Reckoner.Number
