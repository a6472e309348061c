import Reckoner.Proofs.Number.Significant

/-!
# Reckoner.Proofs.Number.Mantissa -- rounding to the digits of a float

A float is made by shifting a long mantissa to the right, with two bits that tell where the number
lies above what is left of it: a bit for the half, and a bit for anything more. Whatever is shifted
out, the two bits stay true, and they are all that rounding to the nearest mantissa needs.
-/

namespace Reckoner.Number

open Float.Model Float.Model.UnpackedFloat

/-! ## Mantissas with two more bits -/

/-- The number of a mantissa and its bit for the half. -/
def base (em : ExtendedMantissa) : ℚ := em.mantissa + if em.roundBit then 1 / 2 else 0

/-- The bits of a mantissa tell where a number lies: less than a half above its base, and exactly on
it if nothing more was shifted out. -/
structure Locates (em : ExtendedMantissa) (v : ℚ) : Prop where
  lower : base em ≤ v
  upper : v < base em + 1 / 2
  exact : v = base em ↔ em.stickyBit = false

theorem locates_exact (m : ℕ) : Locates (.ofMantissaAndAccuracy m .exact) m := by
  have hbase : base (.ofMantissaAndAccuracy m .exact) = m := add_zero _
  refine ⟨hbase.le, by linarith, ?_⟩
  rw [hbase]
  simp [ExtendedMantissa.ofMantissaAndAccuracy]

/-- The remainder of a division tells where the quotient lies. -/
theorem locates_quotient (num : ℕ) {den : ℕ} (hden : 0 < den) :
    Locates (.ofMantissaAndAccuracy (num / den) (accuracyOfFraction (num % den) den))
      (num / den) := by
  have hless := mod_div_lt_one num hden
  rw [div_add_mod_div num hden]
  unfold accuracyOfFraction
  split
  · next hzero =>
    rw [hzero, Nat.cast_zero, zero_div, add_zero]
    exact locates_exact _
  · next hrest =>
    have hpos : (0 : ℚ) < (num % den : ℕ) / den :=
      div_pos (by exact_mod_cast Nat.pos_of_ne_zero hrest) (by exact_mod_cast hden)
    rw [compare_half _ hden]
    generalize ((num % den : ℕ) : ℚ) / den = rest at hless hpos
    cases hcompare : compare rest (1 / 2) with
    | lt =>
        have hhalf := compare_lt_iff_lt.mp hcompare
        have hbase : base (.ofMantissaAndAccuracy (num / den) (.inexact .lt)) = (num / den : ℕ) :=
          add_zero _
        refine ⟨by linarith, by linarith, ?_⟩
        rw [hbase]
        simp [ExtendedMantissa.ofMantissaAndAccuracy, hpos.ne']
    | eq =>
        have hhalf := compare_eq_iff_eq.mp hcompare
        have hbase : base (.ofMantissaAndAccuracy (num / den) (.inexact .eq)) =
            (num / den : ℕ) + 1 / 2 := rfl
        refine ⟨by linarith, by linarith, ?_⟩
        rw [hbase, hhalf]
        simp [ExtendedMantissa.ofMantissaAndAccuracy]
    | gt =>
        have hhalf := compare_gt_iff_gt.mp hcompare
        have hbase : base (.ofMantissaAndAccuracy (num / den) (.inexact .gt)) =
            (num / den : ℕ) + 1 / 2 := rfl
        refine ⟨by linarith, by linarith, ?_⟩
        rw [hbase, add_right_inj]
        exact iff_of_false hhalf.ne' (by simp [ExtendedMantissa.ofMantissaAndAccuracy])

namespace Locates

variable {em : ExtendedMantissa} {v : ℚ}

/-- What a shift moves out of the mantissa goes into the bit for the half, and what was there into
the bit for anything more. -/
theorem shiftRightOne (h : Locates em v) : Locates em.shiftRightOne (v / 2) := by
  obtain ⟨hlower, hupper, hexact⟩ := h
  have hmantissa : (em.mantissa : ℚ) = 2 * (em.mantissa / 2 : ℕ) + (em.mantissa % 2 : ℕ) := by
    exact_mod_cast (Nat.div_add_mod em.mantissa 2).symm
  have hbase : base em.shiftRightOne = (em.mantissa / 2 : ℕ) + (em.mantissa % 2 : ℕ) / 2 := by
    unfold base ExtendedMantissa.shiftRightOne
    rcases Nat.mod_two_eq_zero_or_one em.mantissa with hmod | hmod <;> simp [hmod]
  have hsticky : em.shiftRightOne.stickyBit = (em.roundBit || em.stickyBit) := rfl
  have hsplit : base em / 2 = base em.shiftRightOne + (if em.roundBit then 1 / 4 else 0) := by
    rw [hbase, base, hmantissa]
    split <;> ring
  cases hround : em.roundBit with
  | false =>
      simp only [hround, Bool.false_eq_true, if_false, add_zero, Bool.false_or] at hsplit hsticky
      refine ⟨by linarith, by linarith, ?_⟩
      rw [hsticky, ← hexact, ← hsplit, div_left_inj' two_ne_zero]
  | true =>
      simp only [hround, if_true, Bool.true_or] at hsplit hsticky
      refine ⟨by linarith, by linarith, ?_⟩
      rw [hsticky]
      simp only [Bool.true_eq_false, iff_false]
      exact fun hv => absurd hv (by linarith)

theorem shiftRight (h : Locates em v) (n : ℕ) : Locates (em >>> n) (v / 2 ^ n) := by
  show Locates (n.repeat ExtendedMantissa.shiftRightOne em) _
  induction n with
  | zero => simpa [Nat.repeat] using h
  | succ n ih =>
      rw [Nat.repeat, pow_succ, ← div_div]
      exact ih.shiftRightOne

/-- The two bits are all that is needed to find the nearest integer. -/
theorem isNearestEven (h : Locates em v) : IsNearestEven v em.roundedMantissa := by
  obtain ⟨hlower, hupper, hexact⟩ := h
  obtain ⟨m, round, sticky⟩ := em
  cases round with
  | false =>
      -- below the half nothing is added, whether there is more or not
      have hbase : base ⟨m, false, sticky⟩ = m := add_zero _
      have hrounded : ExtendedMantissa.roundedMantissa ⟨m, false, sticky⟩ = m := by
        cases sticky <;> rfl
      rw [hbase] at hlower hupper
      rw [hrounded]
      exact .of_lt_half hlower hupper
  | true =>
      have hbase : base ⟨m, true, sticky⟩ = m + 1 / 2 := rfl
      rw [hbase] at hlower hupper hexact
      cases sticky with
      | false =>
          rw [hexact.mpr rfl]
          exact .of_half m
      | true =>
          have hne : v ≠ m + 1 / 2 := fun hv => absurd (hexact.mp hv) (by simp)
          exact .of_half_lt (lt_of_le_of_ne hlower hne.symm) (by linarith)

/-- The mantissa is the integer part. -/
theorem mantissa_bounds (h : Locates em v) : (em.mantissa : ℚ) ≤ v ∧ v < em.mantissa + 1 := by
  have hbase : base em = em.mantissa ∨ base em = em.mantissa + 1 / 2 := by
    unfold base
    cases em.roundBit <;> simp
  have hlower := h.lower
  have hupper := h.upper
  rcases hbase with hbase | hbase <;> exact ⟨by linarith, by linarith⟩

end Locates

/-! ## Rounding into a format -/

theorem log2_eq {m k : ℕ} (hle : 2 ^ k ≤ m) (hlt : m < 2 ^ (k + 1)) : m.log2 = k :=
  (Nat.log2_eq_iff (Nat.pos_of_ne_zero (by rintro rfl; simp at hle)).ne').mpr ⟨hle, hlt⟩

/-- In the normal range the last digit of a float stands for the fifty-second power of two below
that of its first. -/
theorem targetExponent_eq {t : ℤ} (ht : -1022 ≤ t) :
    Format.binary64.targetExponent (t + 1) = t - 52 := by
  have hbits : Format.binary64.mantissaBits = 53 := rfl
  have hleast : Format.binary64.minExponent = -1074 := rfl
  rw [Format.targetExponent, hbits, hleast]
  omega

variable {v : ℚ} {t e : ℤ} {m : ℕ} {acc : Accuracy}

/-- The first digit of a mantissa that locates a number is the number's. -/
theorem log2_of_locates (hloc : Locates (.ofMantissaAndAccuracy m acc) (v / 2 ^ e))
    (hv : 2 ^ t ≤ v ∧ v < 2 ^ (t + 1)) (he : e ≤ t) : (m.log2 : ℤ) = t - e := by
  have htwo : (2 : ℚ) ≠ 0 := two_ne_zero
  have hunit : (0 : ℚ) < 2 ^ e := by positivity
  have hm : (ExtendedMantissa.ofMantissaAndAccuracy m acc).mantissa = m := by
    rcases acc with _ | (_ | _ | _) <;> rfl
  obtain ⟨hlower, hupper⟩ := hloc.mantissa_bounds
  rw [hm] at hlower hupper
  obtain ⟨k, hk⟩ := Int.eq_ofNat_of_zero_le (show 0 ≤ t - e by omega)
  have hleast : ((2 ^ k : ℕ) : ℚ) ≤ v / 2 ^ e := by
    rw [le_div_iff₀ hunit, Nat.cast_pow, ← zpow_natCast, Nat.cast_ofNat, ← zpow_add₀ htwo, ← hk,
      sub_add_cancel]
    exact hv.1
  have hmost : v / 2 ^ e < ((2 ^ (k + 1) : ℕ) : ℚ) := by
    rw [div_lt_iff₀ hunit, Nat.cast_pow, ← zpow_natCast, Nat.cast_ofNat, ← zpow_add₀ htwo,
      Nat.cast_add, ← hk, Nat.cast_one, show t - e + 1 + e = t + 1 by ring]
    exact hv.2
  have hle : 2 ^ k < m + 1 := by exact_mod_cast hleast.trans_lt hupper
  have hlt : m < 2 ^ (k + 1) := by exact_mod_cast hlower.trans_lt hmost
  rw [log2_eq (Nat.lt_succ_iff.mp hle) hlt, hk]

/-- A shift to the exponent that the format wants. -/
theorem shiftToTargetExponent_eq (hlog : (m.log2 : ℤ) = t - e) (ht : -1022 ≤ t) (acc : Accuracy)
    {k : ℕ} (hk : t - 52 - e = k) : shiftToTargetExponent .binary64 m e acc =
      (ExtendedMantissa.ofMantissaAndAccuracy m acc >>> k, t - 52) := by
  have htotal : totalExponent m e = t + 1 := by
    rw [totalExponent, hlog]
    ring
  simp only [shiftToTargetExponent, htotal, targetExponent_eq ht, shiftToExponent, hk,
    Int.toNat_natCast]
  rw [← hk, add_sub_cancel]

/-- A rounded mantissa has fifty-three digits, unless all of them have been carried over; then a
further shift loses nothing. -/
theorem shift_carry {n : ℕ} (hlower : 2 ^ 52 ≤ n) (hupper : n ≤ 2 ^ 53) (ht : -1022 ≤ t) :
    let r := shiftToTargetExponent .binary64 n (t - 52) .exact
    2 ^ 52 ≤ r.1.mantissa ∧ r.1.mantissa < 2 ^ 53 ∧ t - 52 ≤ r.2 ∧ r.2 ≤ t - 51 ∧
      (r.1.mantissa : ℚ) * 2 ^ r.2 = n * 2 ^ (t - 52) := by
  intro r
  rcases Nat.lt_or_ge n (2 ^ 53) with hlt | hge
  · have hlog : (n.log2 : ℤ) = t - (t - 52) := by
      rw [log2_eq hlower hlt]
      ring
    have hr : r = (ExtendedMantissa.ofMantissaAndAccuracy n .exact >>> 0, t - 52) :=
      shiftToTargetExponent_eq hlog ht .exact (by rw [sub_self, Nat.cast_zero])
    have hmantissa : r.1.mantissa = n := by
      rw [hr]
      rfl
    have hexponent : r.2 = t - 52 := by rw [hr]
    rw [hmantissa, hexponent]
    exact ⟨hlower, hlt, le_rfl, by omega, rfl⟩
  · obtain rfl : n = 2 ^ 53 := Nat.le_antisymm hupper hge
    have hlog : ((2 ^ 53 : ℕ).log2 : ℤ) = (t + 1) - (t - 52) := by
      rw [Nat.log2_two_pow]
      push_cast
      ring
    have hr : r = (ExtendedMantissa.ofMantissaAndAccuracy (2 ^ 53) .exact >>> 1, t + 1 - 52) :=
      shiftToTargetExponent_eq hlog (by omega) .exact (by push_cast; ring)
    have hmantissa : r.1.mantissa = 2 ^ 52 := by
      rw [hr]
      rfl
    have hexponent : r.2 = t - 52 + 1 := by
      rw [hr]
      ring
    rw [hmantissa, hexponent, zpow_add_one₀ two_ne_zero]
    refine ⟨le_rfl, by norm_num, by omega, by omega, ?_⟩
    push_cast
    ring

/-- In units of its last binary digit a number has fifty-three digits in front of the point. -/
theorem unit_bounds (hv : 2 ^ t ≤ v ∧ v < 2 ^ (t + 1)) :
    ((2 ^ 52 : ℕ) : ℚ) ≤ v / 2 ^ (t - 52) ∧ v / 2 ^ (t - 52) < (2 ^ 53 : ℕ) := by
  have hunit : (0 : ℚ) < 2 ^ (t - 52) := by positivity
  have hpow (k : ℕ) : ((2 ^ k : ℕ) : ℚ) * 2 ^ (t - 52) = 2 ^ (t - 52 + k) := by
    rw [zpow_add₀ two_ne_zero, zpow_natCast, Nat.cast_pow, Nat.cast_ofNat, mul_comm]
  rw [le_div_iff₀ hunit, div_lt_iff₀ hunit, hpow, hpow]
  have hfirst : t - 52 + (52 : ℕ) = t := by omega
  have hnext : t - 52 + (53 : ℕ) = t + 1 := by omega
  rw [hfirst, hnext]
  exact hv

/-- **Rounding into the format of floats** gives the nearest number with fifty-three binary digits,
for a number in the normal range that is located by a mantissa of at least as many. -/
theorem roundWithAccuracy_spec (s : Sign)
    (hloc : Locates (.ofMantissaAndAccuracy m acc) (v / 2 ^ e))
    (hv : 2 ^ t ≤ v ∧ v < 2 ^ (t + 1)) (he : e ≤ t - 52) (ht : -1022 ≤ t) :
    ∃ n : ℕ, IsNearestEven (v / 2 ^ (t - 52)) n ∧ ∃ m' e' h,
      roundWithAccuracy .binary64 s m e acc = .finite s m' e' h ∧
      2 ^ 52 ≤ m' ∧ m' < 2 ^ 53 ∧ t - 52 ≤ e' ∧ e' ≤ t - 51 ∧
      (m' : ℚ) * 2 ^ e' = n * 2 ^ (t - 52) := by
  have hlog := log2_of_locates hloc hv (by omega)
  obtain ⟨k, hk⟩ := Int.eq_ofNat_of_zero_le (show 0 ≤ t - 52 - e by omega)
  have hshift := shiftToTargetExponent_eq hlog ht acc hk
  have hshifted : Locates (ExtendedMantissa.ofMantissaAndAccuracy m acc >>> k)
      (v / 2 ^ (t - 52)) := by
    have hsame : v / 2 ^ e / 2 ^ k = v / 2 ^ (t - 52) := by
      rw [div_div, ← zpow_natCast, ← zpow_add₀ two_ne_zero, ← hk]
      congr 2
      ring
    rw [← hsame]
    exact hloc.shiftRight k
  have hnearest := hshifted.isNearestEven
  obtain ⟨hlower, hupper⟩ := unit_bounds hv
  obtain ⟨hleast, hmost, hlow, hhigh, hvalue⟩ :=
    shift_carry (hnearest.le hlower) (hnearest.le_of_le hupper.le) ht
  have hne : (shiftToTargetExponent .binary64
      (ExtendedMantissa.ofMantissaAndAccuracy m acc >>> k).roundedMantissa (t - 52)
      .exact).1.mantissa ≠ 0 := by omega
  refine ⟨_, hnearest, _, _, Nat.pos_of_ne_zero hne, ?_, hleast, hmost, hlow, hhigh, hvalue⟩
  rw [roundWithAccuracy, hshift]
  exact dif_neg hne

end Reckoner.Number
