import Reckoner.Number.Function
import Reckoner.Proofs.Number.Sign

/-!
# Reckoner.Proofs.Number.Power -- powers of a number and of its negative

A power to an odd exponent changes its sign with the base, as long as the library is asked for it:
so does what it answers, and so does what stands for an answer out of range. It is not asked at the
pole, and there both zeros have the same power.
-/

namespace Reckoner.Number

open Float.Model (UnpackedFloat)
open Float.Model.UnpackedFloat

/-- What is known of the powers of a library: to an odd exponent they change their sign with the
base, and zero to a positive odd exponent is zero. -/
structure IsPower (pow : Float → Float → Float) : Prop where
  neg_base {n : Float} (hn : isOdd n = true) (x : Float) : pow (-x) n = -pow x n
  zero_base {n : Float} (hn : isOdd n = true) (hpos : 0 < n) : pow 0 n = 0

/-- The powers of a library that traps. -/
def powerOf (pow : Float → Float → Float) : Float → Float → Float :=
  powerWith fun x y => trapping [x, y] (pow x y)

/-- The calculator takes its powers from a library that traps. -/
theorem power_eq : power = powerOf Float.pow := rfl

/-! ## Signs and zeros -/

theorem neg_notANumber : -notANumber = notANumber := by decide +kernel

variable {x n : Float} {s : Sign} {m : ℕ} {e : ℤ} {h : 0 < m}

theorem lt_zero_iff (hx : x.toModel.unpack = .finite s m e h) : x < 0 ↔ s = .negative := by
  rw [lt_iff_unpack, hx, unpack_zero]
  cases s with
  | positive => exact iff_of_false Bool.false_ne_true nofun
  | negative => exact iff_of_true rfl rfl

theorem zero_lt_iff (hx : x.toModel.unpack = .finite s m e h) : 0 < x ↔ s = .positive := by
  rw [lt_iff_unpack, hx, unpack_zero]
  cases s with
  | positive => exact iff_of_true rfl rfl
  | negative => exact iff_of_false Bool.false_ne_true nofun

/-- There are two zeros. -/
theorem eq_zero_or_neg_zero (hx : x.toModel.unpack = .zero s) : x = 0 ∨ x = -0 := by
  cases s with
  | positive => exact .inl (eq_of_unpack (hx.trans unpack_zero.symm))
  | negative =>
      right
      apply eq_of_unpack
      rw [hx, unpack_neg, unpack_zero]
      rfl

theorem neg_beq_zero (x : Float) : (-x == 0) = (x == 0) := by
  rw [Bool.eq_iff_iff, beq_zero_iff, beq_zero_iff, unpack_neg]
  cases x.toModel.unpack with
  | zero s => exact iff_of_true ⟨-s, rfl⟩ ⟨s, rfl⟩
  | notANumber => rfl
  | infinity s => simp [UnpackedFloat.neg]
  | finite s m e h => simp [UnpackedFloat.neg]

/-- Whether the library traps does not depend on a sign. -/
theorem trapping_neg (x n y : Float) :
    trapping [-x, n] (-y) = (trapping [x, n] y).map (-·) := by
  have hnan : [-x, n].any Float.isNaN = [x, n].any Float.isNaN := by
    rw [List.any_cons, Number.isNaN_neg]
    rfl
  have hfinite : [-x, n].all Float.isFinite = [x, n].all Float.isFinite := by
    rw [List.all_cons, Number.isFinite_neg]
    rfl
  rw [trapping, trapping, hnan, hfinite, Number.isNaN_neg, Number.isInf_neg,
    apply_ite (Except.map _), apply_ite (Except.map _)]
  rfl

/-- An odd number is not zero. -/
theorem unpack_of_isOdd (hn : isOdd n = true) : ∃ s m e h, n.toModel.unpack = .finite s m e h := by
  rw [isOdd, integer?] at hn
  cases hunpack : n.toModel.unpack with
  | finite s m e h => exact ⟨s, m, e, h, rfl⟩
  | zero s =>
      rw [exactValue?, hunpack] at hn
      cases s <;> cases hn
  | infinity s =>
      rw [exactValue?, hunpack] at hn
      cases hn
  | notANumber =>
      rw [exactValue?, hunpack] at hn
      cases hn

/-! ## Odd exponents -/

variable {pow : Float → Float → Float}

theorem trapping_eq_range {args : List Float} {y : Float}
    (h : trapping args y = .error .range) : y.isInf = true ∧ args.all Float.isFinite = true := by
  rw [trapping] at h
  split at h
  · cases h
  split at h
  · next hrange => exact Bool.and_eq_true_iff.mp hrange
  · cases h

/-- What the library finds out of range is a power of a finite number that is not zero. -/
theorem unpack_of_range (hpow : IsPower pow) (hn : isOdd n = true)
    (hpole : ¬ ((x == 0) = true ∧ n < 0)) (hrange : trapping [x, n] (pow x n) = .error .range) :
    ∃ s m e h, x.toModel.unpack = .finite s m e h := by
  obtain ⟨hinf, hall⟩ := trapping_eq_range hrange
  have hfinite : x.isFinite = true := List.all_eq_true.mp hall x List.mem_cons_self
  rw [isFinite_eq_unpack] at hfinite
  cases hx : x.toModel.unpack with
  | finite s m e h => exact ⟨s, m, e, h, rfl⟩
  | infinity s =>
      rw [hx] at hfinite
      cases hfinite
  | notANumber =>
      rw [hx] at hfinite
      cases hfinite
  | zero s =>
      exfalso
      have hzero := (beq_zero_iff x).mpr ⟨s, hx⟩
      obtain ⟨s', m, e, h, hunpack⟩ := unpack_of_isOdd hn
      cases s' with
      | negative => exact hpole ⟨hzero, (lt_zero_iff hunpack).mpr rfl⟩
      | positive =>
          -- the power of a zero is a zero
          have hpower := hpow.zero_base hn ((zero_lt_iff hunpack).mpr rfl)
          rcases eq_zero_or_neg_zero hx with rfl | rfl
          · rw [hpower] at hinf
            cases hinf
          · rw [hpow.neg_base hn, hpower, Number.isInf_neg] at hinf
            cases hinf

/-- At the pole the library is not asked. -/
theorem powerOf_pole (pow : Float → Float → Float) (hzero : (x == 0) = true) (hneg : n < 0) :
    powerOf pow x n = infinity := by
  rw [powerOf, powerWith, if_pos]
  rw [hzero, decide_eq_true hneg]
  rfl

/-- What stands for a power out of range changes its sign with the base. -/
theorem overflow_neg (hx : x.toModel.unpack = .finite s m e h) :
    (if -x < 0 then -infinity else infinity) = -(if x < 0 then -infinity else infinity) := by
  have hx' : (-x).toModel.unpack = .finite (-s) m e h := by
    rw [unpack_neg, hx]
    rfl
  cases s with
  | positive =>
      have hless : -x < 0 := (lt_zero_iff hx').mpr rfl
      rw [if_pos hless, if_neg ((lt_zero_iff hx).not.mpr nofun)]
  | negative =>
      have hless : x < 0 := (lt_zero_iff hx).mpr rfl
      rw [if_pos hless, if_neg ((lt_zero_iff hx').not.mpr nofun)]
      exact (Number.neg_neg infinity).symm

/-- Where the library is asked, a power to an odd exponent changes its sign with the base. -/
theorem powerOf_neg_of_asked (hpow : IsPower pow) (hn : isOdd n = true)
    (hasked : ¬ ((x == 0) = true ∧ n < 0)) : powerOf pow (-x) n = -powerOf pow x n := by
  have hskip : ¬ ((x == 0) && decide (n < 0)) = true := by
    rw [Bool.and_eq_true, decide_eq_true_eq]
    exact hasked
  have hskip' : ¬ ((-x == 0) && decide (n < 0)) = true := by
    rw [neg_beq_zero]
    exact hskip
  rw [powerOf, powerWith, powerWith, if_neg hskip, if_neg hskip', hpow.neg_base hn, trapping_neg]
  cases hanswer : trapping [x, n] (pow x n) with
  | ok y => rfl
  | error trap =>
      cases trap with
      | domain => exact neg_notANumber.symm
      | range =>
          obtain ⟨s, m, e, h, hx⟩ := unpack_of_range hpow hn hasked hanswer
          show (if decide (-x < 0) && isOdd n then -infinity else infinity) =
            -(if decide (x < 0) && isOdd n then -infinity else infinity)
          simp only [hn, Bool.and_true, decide_eq_true_eq]
          exact overflow_neg hx

/-- **A power to an odd exponent changes its sign with the base**, whether the library answers or
finds it out of range, unless zero is raised to a negative exponent. Then both zeros have the same
power, which is infinity. -/
theorem powerOf_neg (hpow : IsPower pow) (hn : isOdd n = true) (x : Float) :
    (powerOf pow (-x) n = -powerOf pow x n ↔ ¬ ((x == 0) = true ∧ n < 0)) ∧
      ((x == 0) = true → n < 0 → powerOf pow (-x) n = infinity ∧ powerOf pow x n = infinity) := by
  have hpole (hzero : (x == 0) = true) (hneg : n < 0) :
      powerOf pow (-x) n = infinity ∧ powerOf pow x n = infinity := by
    have hzero' : (-x == 0) = true := (neg_beq_zero x).trans hzero
    exact ⟨powerOf_pole pow hzero' hneg, powerOf_pole pow hzero hneg⟩
  refine ⟨⟨?_, powerOf_neg_of_asked hpow hn⟩, hpole⟩
  rintro heq ⟨hzero, hneg⟩
  obtain ⟨hleft, hright⟩ := hpole hzero hneg
  rw [hleft, hright] at heq
  exact absurd heq (by decide +kernel)

/-- The cube, which changes its sign with its argument. -/
theorem isPower_cube : IsPower fun x _ => x * (x.abs * x.abs) where
  neg_base := by
    intro n hn x
    rw [Number.abs_neg, Number.neg_mul]
  zero_base := by
    intro n hn hpos
    rfl

/-- Minus two cubed is the negative of two cubed, and so it is far out of range. The reciprocals of
the zeros are the same. -/
theorem powerOf_neg_cube :
    powerOf (fun x _ => x * (x.abs * x.abs)) (-2) 3 = -8 ∧
      powerOf (fun x _ => x * (x.abs * x.abs)) (-1e200) 3 = -infinity ∧
      powerOf (fun x _ => x * (x.abs * x.abs)) (-0) (-1) = infinity ∧
      powerOf (fun x _ => x * (x.abs * x.abs)) (-0) (-1) ≠
        -powerOf (fun x _ => x * (x.abs * x.abs)) 0 (-1) := by
  obtain ⟨htwo, -⟩ := powerOf_neg isPower_cube (n := 3) (by decide +kernel) 2
  obtain ⟨hfar, -⟩ := powerOf_neg isPower_cube (n := 3) (by decide +kernel) 1e200
  obtain ⟨hzero, hpole⟩ := powerOf_neg isPower_cube (n := -1) (by decide +kernel) 0
  refine ⟨?_, ?_, ?_, ?_⟩
  · rw [htwo.mpr (by decide +kernel)]
    decide +kernel
  · rw [hfar.mpr (by decide +kernel)]
    decide +kernel
  · exact (hpole rfl (by decide +kernel)).1
  · intro heq
    exact hzero.mp heq ⟨rfl, by decide +kernel⟩

end Reckoner.Number
