import Reckoner.Proofs.Number.Layout
import Reckoner.Proofs.Number.Reading

/-!
# Reckoner.Proofs.Number.Reread -- digits that are read come back

The float that is read from the digits of a float need not be that float, but it is no further from
the digits. Unless these are a power of ten, all numbers that are no further from them than what
was rounded to them are rounded to them as well. About a power of ten the numbers below it are
rounded more finely than those above; there are few enough powers that are written positionally to
look at each.
-/

namespace Reckoner.Number

/-- The float that the digits of a literal are read as, if it has no power of ten. -/
def Literal.read (l : Literal) : Float :=
  Float.ofScientific (digitsValue (l.whole ++ l.fraction)) true l.fraction.length

/-- A literal without a power of ten is read as the nearest float. -/
theorem read_nearest {l : Literal} (hpower : l.power = none)
    (hlow : (10 : ℚ) ^ (-6 : ℤ) ≤ l.magnitude) (hhigh : l.magnitude < 10 ^ (21 : ℤ)) :
    IsNearestFloat l.read.toModel.unpack l.magnitude := by
  have hmagnitude : l.magnitude =
      (digitsValue (l.whole ++ l.fraction) : ℚ) / 10 ^ l.fraction.length := by
    rw [Literal.magnitude, hpower, Option.getD_none, zero_sub, zpow_neg, zpow_natCast,
      div_eq_mul_inv]
  have hleast : (0 : ℚ) < 10 ^ (-6 : ℤ) := by positivity
  have hpos : 0 < digitsValue (l.whole ++ l.fraction) := by
    refine Nat.pos_of_ne_zero fun hzero => ?_
    rw [hmagnitude, hzero, Nat.cast_zero, zero_div] at hlow
    linarith
  obtain ⟨t, ht, ht'⟩ := exists_mem_Ico_zpow (hleast.trans_le hlow) (one_lt_two (α := ℚ))
  have hbelow : (2 : ℚ) ^ (-20 : ℤ) < 2 ^ (t + 1) := by
    refine lt_of_le_of_lt ?_ (hlow.trans_lt ht')
    norm_num
  have habove : (2 : ℚ) ^ t < 2 ^ (70 : ℤ) := by
    refine (ht.trans_lt hhigh).trans_le ?_
    norm_num
  have hlower := (zpow_lt_zpow_iff_right₀ one_lt_two).mp hbelow
  have hupper := (zpow_lt_zpow_iff_right₀ one_lt_two).mp habove
  rw [hmagnitude] at ht ht' ⊢
  exact ofScientific_nearest hpos ⟨ht, ht'⟩ (by omega) (by omega)

variable {p num den : ℕ} {v : Exact} {x : Float}

/-- Digits that are no power of ten are found again in every float that is no further from them
than what they were rounded from. -/
theorem significant_of_nearer (hp : 1 ≤ p) (hden : 0 < v.den) (hnum : 0 < v.num)
    {w : Exact} (hden' : 0 < w.den) (hnum' : 0 < w.num)
    (hpower : (significant p v.num v.den).coefficient ≠ 10 ^ (p - 1))
    (hnearer : |(significant p v.num v.den).value p - w.magnitude| ≤
      |(significant p v.num v.den).value p - v.magnitude|) :
    significant p w.num w.den = significant p v.num v.den := by
  obtain ⟨hlower, hupper, -⟩ := significant_spec hp hnum hden
  have hnearest := significant_nearest hden hpower
  have hcoefficient := Significant.value_mul p (significant p v.num v.den)
  generalize significant p v.num v.den = s at *
  refine significant_eq hp hnum' hden' (Nat.lt_of_le_of_ne hlower hpower.symm) hupper
    (hnearest.of_nearer ?_)
  have hscale : (0 : ℚ) ≤ 10 ^ (p - 1 - s.exponent : ℤ) := by positivity
  rw [← hcoefficient, ← sub_mul, ← sub_mul, abs_mul, abs_mul, abs_sub_comm _ (s.value p),
    abs_sub_comm _ (s.value p)]
  exact mul_le_mul_of_nonneg_right hnearer (abs_nonneg _)

/-! ## Powers of ten -/

/-- What is rounded to a power of ten is within half a unit above it, or within half a unit of the
lower decade below it. -/
theorem near_power {k : ℤ} (hnum : 0 < num) (hden : 0 < den)
    (h : significant p num den = ⟨10 ^ (p - 1), k⟩) :
    (10 ^ k ≤ (num : ℚ) / den ∧
      IsNearestEven (num / den * 10 ^ (p - 1 - k : ℤ)) (10 ^ (p - 1))) ∨
    ((num : ℚ) / den < 10 ^ k ∧ IsNearestEven (num / den * 10 ^ (p - k : ℤ)) (10 ^ p)) := by
  have hdecade := decade_spec hnum hden
  have hnearest := isNearestEven_scaled p num hden (decade num den)
  simp only [significant] at h
  split at h
  · next hcarry =>
    obtain rfl : decade num den + 1 = k := congrArg Significant.exponent h
    have hplace : (p - 1 - decade num den : ℤ) = p - (decade num den + 1) := by ring
    rw [hcarry, hplace] at hnearest
    exact .inr ⟨hdecade.2, hnearest⟩
  · obtain rfl : decade num den = k := congrArg Significant.exponent h
    have hcoefficient := congrArg Significant.coefficient h
    simp only at hcoefficient
    rw [hcoefficient] at hnearest
    exact .inl ⟨hdecade.1, hnearest⟩

/-- A float that is at least the power of two `52 - G` has at most `G` binary places. -/
theorem exists_grid {m G : ℕ} {e : ℤ} (hm : m < 2 ^ 53) (hle : (2 : ℚ) ^ (52 - G : ℤ) ≤ m * 2 ^ e) :
    ∃ n : ℕ, (m : ℚ) * 2 ^ e * 2 ^ G = n := by
  have hbelow : (2 : ℚ) ^ (52 - G : ℤ) < 2 ^ (53 + e) := by
    calc (2 : ℚ) ^ (52 - G : ℤ) ≤ m * 2 ^ e := hle
      _ < (2 ^ 53 : ℕ) * 2 ^ e := by gcongr
      _ = 2 ^ (53 + e) := by
        rw [zpow_add₀ two_ne_zero, Nat.cast_pow, ← zpow_natCast]
        push_cast
        rfl
  have hexponents := (zpow_lt_zpow_iff_right₀ one_lt_two).mp hbelow
  obtain ⟨k, hk⟩ := Int.eq_ofNat_of_zero_le (show 0 ≤ e + G by omega)
  refine ⟨m * 2 ^ k, ?_⟩
  rw [mul_assoc, ← zpow_natCast, ← zpow_add₀ two_ne_zero, hk, zpow_natCast]
  push_cast
  rfl

/-- What is rounded with seventeen digits to a power of a tenth is within half a unit above it, or
within half a unit of the lower decade below it. -/
theorem near_tenth {j : ℕ} {v : ℚ} (hv : (num : ℚ) / den = v) (hnum : 0 < num) (hden : 0 < den)
    (h : significant 17 num den = ⟨10 ^ (17 - 1), -j⟩) :
    (1 ≤ v * 10 ^ j ∧ 2 * 10 ^ 16 * (v * 10 ^ j) ≤ 2 * 10 ^ 16 + 1) ∨
    (v * 10 ^ j < 1 ∧ 2 * 10 ^ 17 ≤ 2 * 10 ^ 17 * (v * 10 ^ j) + 1) := by
  have hj : (0 : ℚ) < 10 ^ j := by positivity
  have hplace : ((17 : ℕ) - 1 - -(j : ℤ) : ℤ) = (16 + j : ℕ) := by
    push_cast
    ring
  have hplace' : ((17 : ℕ) - -(j : ℤ) : ℤ) = (17 + j : ℕ) := by
    push_cast
    ring
  have hpower : (10 : ℚ) ^ (-(j : ℤ)) = 1 / 10 ^ j := by rw [zpow_neg, zpow_natCast, one_div]
  have hnear := near_power hnum hden h
  rw [hv, hplace, hplace', zpow_natCast, zpow_natCast, hpower, div_le_iff₀ hj, lt_div_iff₀ hj,
    pow_add, pow_add] at hnear
  refine hnear.imp (fun ⟨hle, hnearest⟩ => ⟨hle, ?_⟩) (fun ⟨hlt, hnearest⟩ => ⟨hlt, ?_⟩)
  · have hmost := (abs_le.mp hnearest.1).2
    push_cast at hmost
    linarith
  · have hleast := (abs_le.mp hnearest.1).1
    push_cast at hleast
    linarith

/-- On the grid of `G` binary places there is a number that is rounded with seventeen digits to the
`j`-th power of a tenth, from above or from below. -/
def GridMeets (j G : ℕ) : Prop :=
  ∃ n : ℕ, (2 ^ G ≤ n * 10 ^ j ∧ 2 * 10 ^ 16 * (n * 10 ^ j) ≤ (2 * 10 ^ 16 + 1) * 2 ^ G) ∨
    (n * 10 ^ j < 2 ^ G ∧ 2 * 10 ^ 17 * 2 ^ G ≤ 2 * 10 ^ 17 * (n * 10 ^ j) + 2 ^ G)

/-- A float that is rounded to a power of a tenth lies on its grid, if the power of two below is far
enough away. -/
theorem gridMeets_of_significant {j G m : ℕ} {e : ℤ} (hm : m < 2 ^ 53)
    (hfar : 2 ^ 52 * (2 * 10 ^ 17 * 10 ^ j) + 2 ^ G ≤ 2 * 10 ^ 17 * 2 ^ G) (hnum : 0 < num)
    (hden : 0 < den) (hvalue : (num : ℚ) / den = m * 2 ^ e)
    (h : significant 17 num den = ⟨10 ^ (17 - 1), -j⟩) : GridMeets j G := by
  have hG : (0 : ℚ) < 2 ^ G := by positivity
  have hnear := near_tenth hvalue hnum hden h
  -- either way the float is at least the power of two below
  have hleast : (2 : ℚ) ^ (52 - G : ℤ) ≤ m * 2 ^ e := by
    have hfar' : (2 : ℚ) ^ 52 * (2 * 10 ^ 17 * 10 ^ j) + 2 ^ G ≤ 2 * 10 ^ 17 * 2 ^ G := by
      exact_mod_cast hfar
    have hunit : (2 : ℚ) * 10 ^ 17 - 1 ≤ 2 * 10 ^ 17 * (m * 2 ^ e * 10 ^ j) := by
      rcases hnear with ⟨hle, -⟩ | ⟨-, hle⟩ <;> linarith
    have hscale : (0 : ℚ) < 2 * 10 ^ 17 * 10 ^ j := by positivity
    rw [zpow_sub₀ two_ne_zero, zpow_natCast, div_le_iff₀ hG, ← mul_le_mul_iff_left₀ hscale]
    calc (2 : ℚ) ^ 52 * (2 * 10 ^ 17 * 10 ^ j) ≤ ((2 : ℚ) * 10 ^ 17 - 1) * 2 ^ G := by linarith
      _ ≤ (2 : ℚ) * 10 ^ 17 * (m * 2 ^ e * 10 ^ j) * 2 ^ G := by gcongr
      _ = m * 2 ^ e * 2 ^ G * (2 * 10 ^ 17 * 10 ^ j) := by ring
  obtain ⟨n, hn⟩ := exists_grid hm hleast
  have hgrid : (m : ℚ) * 2 ^ e * 10 ^ j * 2 ^ G = n * 10 ^ j := by rw [mul_right_comm, hn]
  generalize (m : ℚ) * 2 ^ e * 10 ^ j = u at *
  refine ⟨n, hnear.imp (fun ⟨hle, hmost⟩ => ?_) (fun ⟨hlt, hleast⟩ => ?_)⟩
  · have hle := mul_le_mul_of_nonneg_right hle hG.le
    have hmost := mul_le_mul_of_nonneg_right hmost hG.le
    rw [one_mul, hgrid] at hle
    rw [mul_assoc, hgrid] at hmost
    exact ⟨by exact_mod_cast hle, by exact_mod_cast hmost⟩
  · have hlt := mul_lt_mul_of_pos_right hlt hG
    have hleast := mul_le_mul_of_nonneg_right hleast hG.le
    rw [one_mul, hgrid] at hlt
    rw [add_mul, one_mul, mul_assoc _ u, hgrid] at hleast
    exact ⟨by exact_mod_cast hlt, by exact_mod_cast hleast⟩

/-- The powers of a tenth that no float is rounded to with seventeen digits, each with the number of
binary places that the floats about it have. Seventeen digits lie closer together there than floats
do, so what such a power is read as has other digits. -/
def unreached : List (ℕ × ℕ) := [(1, 56), (5, 69), (6, 72)]

/-- The grids miss these powers: either bound leaves no integer. -/
theorem not_gridMeets : ∀ g ∈ unreached, ¬ GridMeets g.1 g.2 := by
  simp only [unreached, List.forall_mem_cons, List.not_mem_nil, false_implies, implies_true,
    and_true]
  refine ⟨?_, ?_, ?_⟩ <;>
  · rintro ⟨n, h⟩
    omega

/-- No float is rounded to one of these powers. -/
theorem significant_ne_power {g : ℕ × ℕ} (hg : g ∈ unreached) {m : ℕ} {e : ℤ} (hm : m < 2 ^ 53)
    (hnum : 0 < num) (hden : 0 < den) (hvalue : (num : ℚ) / den = m * 2 ^ e) :
    significant 17 num den ≠ ⟨10 ^ (17 - 1), -g.1⟩ := by
  have hfar : ∀ g ∈ unreached,
      2 ^ 52 * (2 * 10 ^ 17 * 10 ^ g.1) + 2 ^ g.2 ≤ 2 * 10 ^ 17 * 2 ^ g.2 := by decide
  intro h
  exact not_gridMeets g hg (gridMeets_of_significant hm (hfar g hg) hnum hden hvalue h)

/-- Each power of ten that is written positionally is read as a float that is rounded to it with up
to seventeen digits, but for the powers that no float is rounded to with all seventeen. -/
theorem powers_read : ∀ i : ℕ, i < 27 →
    (exactValue? (Literal.positional ['1'] (i - 6)).read).any (fun w =>
      decide (∀ n : ℕ, n < 17 → significant (n + 1) w.num w.den = ⟨10 ^ n, i - 6⟩ ∨
        n = 16 ∧ ∃ g ∈ unreached, (i - 6 : ℤ) = -g.1)) = true := by
  decide +kernel

/-- A power of ten that a float is rounded to is found again in the float that it is read as. -/
theorem significant_read_power {k : ℤ} (hp : 1 ≤ p) (hp' : p ≤ 17) (hlow : -6 ≤ k) (hhigh : k ≤ 20)
    (hreached : ∀ g ∈ unreached, significant 17 num den ≠ ⟨10 ^ (17 - 1), -g.1⟩)
    (hs : significant p num den = ⟨10 ^ (p - 1), k⟩) {w : Exact}
    (hw : exactValue? (Literal.positional (decimalDigits (10 ^ (p - 1))) k).read = some w) :
    significant p w.num w.den = ⟨10 ^ (p - 1), k⟩ := by
  obtain ⟨i, hi⟩ := Int.eq_ofNat_of_zero_le (show 0 ≤ k + 6 by omega)
  obtain rfl : k = i - 6 := by omega
  obtain ⟨n, rfl⟩ := Nat.exists_eq_add_of_le' hp
  have hread := powers_read i (by omega)
  rw [Nat.add_sub_cancel] at hs hw ⊢
  rw [decimalDigits_pow, ← List.singleton_append, Literal.positional_zeros] at hw
  rw [hw, Option.any_some, decide_eq_true_iff] at hread
  rcases hread n (by omega) with h | ⟨rfl, g, hg, hk⟩
  · exact h
  · rw [hk] at hs
    exact absurd hs (hreached g hg)

/-! ## The digits of a float -/

/-- **The digits of a float come back** when they are written positionally and read. -/
theorem significant_read (hp : 1 ≤ p) (hp' : p ≤ 17) (hx : exactValue? x = some v)
    (hnum : 0 < v.num) (hlow : -6 ≤ (significant p v.num v.den).exponent)
    (hhigh : (significant p v.num v.den).exponent ≤ 20) :
    ∃ m e h, (Literal.positional (decimalDigits (significant p v.num v.den).coefficient)
        (significant p v.num v.den).exponent).read.toModel.unpack = .finite .positive m e h ∧
      Normal m e ∧
      significant p (Exact.ofFinite .positive m e).num (Exact.ofFinite .positive m e).den =
        significant p v.num v.den := by
  have hden := den_pos_of_exactValue? hx
  obtain ⟨-, -, -, -, hvalue⟩ := digits_significant hp hnum hden
  obtain ⟨hlower, hupper, -⟩ := significant_spec hp hnum hden
  obtain ⟨hleast, hmost⟩ := (exponent_range (value_bounds hp hlower hupper)).mp ⟨hlow, hhigh⟩
  have hmagnitude := (Literal.magnitude_positional _ _).trans hvalue
  rw [← hmagnitude] at hleast hmost
  obtain ⟨m, e, h, hunpack, hnormal, hnearest⟩ :=
    read_nearest (Literal.power_positional _ _) hleast hmost
  refine ⟨m, e, h, hunpack, hnormal, ?_⟩
  obtain ⟨s', m', e', h', hunpack', hv⟩ := unpack_of_exactValue? hx hnum.ne'
  have hmantissa := mantissa_lt hunpack'
  have hv' : v.magnitude = m' * 2 ^ e' := by rw [hv, Exact.magnitude_ofFinite]
  have hread := exactValue?_of_unpack hunpack
  by_cases hpower : (significant p v.num v.den).coefficient = 10 ^ (p - 1)
  · have hs : significant p v.num v.den =
        ⟨10 ^ (p - 1), (significant p v.num v.den).exponent⟩ := by rw [← hpower]
    rw [hpower] at hread
    rw [hs]
    exact significant_read_power hp hp' hlow hhigh
      (fun g hg => significant_ne_power hg hmantissa hnum hden hv') hs hread
  · refine significant_of_nearer hp hden hnum (den_pos_of_exactValue? hread)
      (Exact.num_ofFinite_pos h) hpower ?_
    rw [Exact.magnitude_ofFinite, hv', ← hmagnitude]
    exact hnearest m' e' hmantissa

end Reckoner.Number
