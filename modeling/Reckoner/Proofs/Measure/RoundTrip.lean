import Reckoner.Proofs.Eval.Faultless
import Reckoner.Proofs.Number.Relative
import Reckoner.Proofs.Number.Sign

/-!
# Reckoner.Proofs.Measure.RoundTrip -- there and back again

A conversion is a product and a quotient. There and back the scales cancel, and what is left are
four roundings. The scales of the standard units are at most twelve powers of two away from one, so
for amounts that are not at the ends of the range nothing on the way is.
-/

namespace Reckoner

open Number (Denotes HasMagnitude Between Close signed)
open Float.Model.UnpackedFloat (Sign)

/-! ## Amounts -/

namespace Number

variable {x y : Float} {a b : ℚ} {k : ℕ}

/-- What the exact value of a float shows about its magnitude. -/
theorem between_of_exactValue? (h : (exactValue? x).any (fun v =>
      !v.negative && v.den ≤ 2 ^ k * v.num && v.num ≤ 2 ^ k * v.den) = true) :
    ∃ a, HasMagnitude x .positive a ∧ Between k a := by
  obtain ⟨v, hv, hbounds⟩ := (Option.any_eq_true _ _).mp h
  simp only [Bool.and_eq_true, Bool.not_eq_true', decide_eq_true_eq] at hbounds
  obtain ⟨⟨hsign, hlower⟩, hupper⟩ := hbounds
  have hden := den_pos_of_exactValue? hv
  have hnum : 0 < v.num := by
    apply Nat.pos_of_ne_zero
    intro hzero
    rw [hzero, Nat.mul_zero] at hlower
    omega
  obtain ⟨s, m, e, hm, hunpack, rfl⟩ := unpack_of_exactValue? hv hnum.ne'
  have hs : s = .positive := by
    cases s with
    | positive => rfl
    | negative => cases hsign
  subst hs
  refine ⟨_, ⟨m, e, hm, hunpack, rfl⟩, ?_⟩
  have hden' : (0 : ℚ) < (Exact.ofFinite .positive m e).den := by exact_mod_cast hden
  rw [← Exact.magnitude_ofFinite .positive, Exact.magnitude]
  constructor
  · rw [le_div_iff₀ hden', zpow_neg, zpow_natCast, inv_mul_le_iff₀ (by positivity)]
    exact_mod_cast hlower
  · rw [div_le_iff₀ hden', zpow_natCast]
    exact_mod_cast hupper

/-- Positive floats are compared as the numbers that they are: one with a greater exponent is
normal, and so it is greater. -/
theorem HasMagnitude.le (hx : HasMagnitude x .positive a) (hy : HasMagnitude y .positive b)
    (hle : x ≤ y) : a ≤ b := by
  obtain ⟨m, e, h, hunpack, rfl⟩ := hx
  obtain ⟨m', e', h', hunpack', rfl⟩ := hy
  rw [le_iff_unpack, hunpack, hunpack'] at hle
  have horder : ((compare e e').then (compare m m')).isLE = true := hle
  rcases Ordering.isLE_then_iff_or.mp horder with hexponent | ⟨hexponent, hmantissa⟩
  · have hexponent : e < e' := compare_lt_iff_lt.mp hexponent
    have hleast : -1074 ≤ e := by
      rcases normal_or_subnormal hunpack with hnormal | ⟨-, rfl⟩
      · exact hnormal.le_exponent
      · exact Int.le_refl _
    have hnormal : Normal m' e' := by
      apply (normal_or_subnormal hunpack').resolve_right
      rintro ⟨-, rfl⟩
      omega
    obtain ⟨hfirst, -⟩ := zpow_mantissa hnormal.le_mantissa hnormal.mantissa_lt e'
    calc (m : ℚ) * 2 ^ e ≤ 2 ^ (e + 53) := (mul_zpow_lt (mantissa_lt hunpack) e).le
      _ ≤ 2 ^ (e' + 52) := zpow_le_zpow_right₀ one_le_two (by omega)
      _ ≤ m' * 2 ^ e' := hfirst
  · obtain rfl := compare_eq_iff_eq.mp hexponent
    have hmantissa : m ≤ m' := compare_le_iff_le.mp (Ordering.isLE_iff_ne_gt.mp hmantissa)
    gcongr

/-- A float between the bounds is far from the ends of the range. -/
theorem between_of_abs (hlower : 1e-290 ≤ x.abs) (hupper : x.abs ≤ 1e290) :
    ∃ s a, HasMagnitude x s a ∧ Between 964 a := by
  obtain ⟨least, hleast, hleast'⟩ := between_of_exactValue? (x := 1e-290) (k := 964)
    (by decide +kernel)
  obtain ⟨most, hmost, hmost'⟩ := between_of_exactValue? (x := 1e290) (k := 964)
    (by decide +kernel)
  obtain ⟨m₁, e₁, h₁, hunpack₁, -⟩ := id hleast
  obtain ⟨m₂, e₂, h₂, hunpack₂, -⟩ := id hmost
  have hunpack := unpack_abs x
  cases hx : x.toModel.unpack with
  | notANumber =>
      rw [le_iff_unpack, hunpack, hx, hunpack₁] at hlower
      cases hlower
  | zero s =>
      rw [le_iff_unpack, hunpack, hx, hunpack₁] at hlower
      cases hlower
  | infinity s =>
      rw [le_iff_unpack, hunpack, hx, hunpack₂] at hupper
      cases hupper
  | finite s m e h =>
      rw [hx] at hunpack
      have habs : HasMagnitude x.abs .positive (m * 2 ^ e) := ⟨m, e, h, hunpack, rfl⟩
      refine ⟨s, _, ⟨m, e, h, hx, rfl⟩, ?_, ?_⟩
      · exact hleast'.lower.trans (hleast.le habs hlower)
      · exact (habs.le hmost hupper).trans hmost'.upper

end Number

/-! ## Conversions -/

namespace UnitTable

variable {source target : String} {m n : Measure} {x : Float} {s : Sign} {a : ℚ}

/-- A conversion is a product and a quotient. -/
theorem convert_ok {units : UnitTable} (hu : units.Scaled) (hm : units.measure source = .ok m)
    (hn : units.measure target = .ok n) (hdimension : m.dimension = n.dimension) (x : Float) :
    units.convert x source target = .ok (x * m.scale / n.scale) := by
  rw [convert, hm, hn]
  show (if m.dimension = n.dimension then _ else _) = _
  rw [if_pos hdimension, dif_neg (Bool.eq_false_iff.mp (scale_ne_zero hu hn))]
  rfl

/-- The scales of the standard units are far from the ends of the range. -/
theorem standard_scale (hm : standard.measure source = .ok m) :
    ∃ p, HasMagnitude m.scale .positive p ∧ Between 12 p := by
  have htable : ∀ entry ∈ standard.entries, (Number.exactValue? entry.2.scale).any (fun v =>
      !v.negative && v.den ≤ 2 ^ 12 * v.num && v.num ≤ 2 ^ 12 * v.den) = true := by decide +kernel
  exact Number.between_of_exactValue? (htable (source, m) (mem_of_measure hm))

/-- A conversion rounds twice. -/
theorem conversion_close {k : ℕ} {p q : ℚ} (hx : HasMagnitude x s a) (ha : Between k a)
    (hm : HasMagnitude m.scale .positive p) (hp : Between 12 p)
    (hn : HasMagnitude n.scale .positive q) (hq : Between 12 q) (hk : k + 25 ≤ 1022) :
    ∃ c, HasMagnitude (x * m.scale / n.scale) s c ∧ Close 2 (a * p / q) c ∧ Between (k + 26) c := by
  obtain ⟨b, hb, hproduct, hbetween⟩ := hx.mul ha hm hp (by omega)
  obtain ⟨c, hc, hquotient, hbetween'⟩ := hb.div hbetween hn hq (by omega)
  have hsign : s * .positive / .positive = s := by cases s <;> rfl
  rw [hsign] at hc
  exact ⟨c, hc, (hproduct.div hq.pos.le).trans hquotient, hbetween'⟩

/-- Four roundings change a number by less than a thousand millionth of it. -/
theorem abs_sub_le_of_close {c : ℚ} (h : Close 4 a c) (ha : 0 ≤ a) :
    |c - a| ≤ 1 / 10 ^ 9 * a := by
  have hshrink : 1 - 1 / 10 ^ 9 ≤ (1 - Number.roundoff) ^ 4 := by norm_num [Number.roundoff]
  have hgrow : (1 + Number.roundoff) ^ 4 ≤ 1 + 1 / 10 ^ 9 := by norm_num [Number.roundoff]
  have hlower := (mul_le_mul_of_nonneg_right hshrink ha).trans h.lower
  have hupper := h.upper.trans (mul_le_mul_of_nonneg_right hgrow ha)
  rw [abs_le]
  constructor <;> linarith

/-- There and back, an amount is rounded four times. -/
theorem conversion_conversion_close {p q : ℚ} (hx : HasMagnitude x s a) (ha : Between 964 a)
    (hm : HasMagnitude m.scale .positive p) (hp : Between 12 p)
    (hn : HasMagnitude n.scale .positive q) (hq : Between 12 q) :
    ∃ c, HasMagnitude (x * m.scale / n.scale * n.scale / m.scale) s c ∧ Close 4 a c := by
  obtain ⟨b, hb, hthere, hbetween⟩ := conversion_close hx ha hm hp hn hq (by omega)
  obtain ⟨c, hc, hback, -⟩ := conversion_close hb hbetween hn hq hm hp (by omega)
  have hcancel : a * p / q * q / p = a := by
    rw [div_mul_cancel₀ _ hq.pos.ne', mul_div_cancel_right₀ _ hp.pos.ne']
  have hclose := ((hthere.mul hq.pos.le).div hp.pos.le).trans hback
  rw [hcancel] at hclose
  exact ⟨c, hc, hclose⟩

/-- **A conversion there and back** gives the amount again but for a thousand millionth of it, for
two standard units of one dimension and every amount that is zero or not at the ends of the
range. -/
theorem convert_convert (hm : standard.measure source = .ok m)
    (hn : standard.measure target = .ok n) (hdimension : m.dimension = n.dimension)
    (hx : (x == 0) = true ∨ 1e-290 ≤ x.abs ∧ x.abs ≤ 1e290) :
    ∃ y z v w, standard.convert x source target = .ok y ∧ y = x * m.scale / n.scale ∧
      standard.convert y target source = .ok z ∧ z = y * n.scale / m.scale ∧
      Denotes x v ∧ Denotes z w ∧ |w - v| ≤ 1 / 10 ^ 9 * |v| := by
  obtain ⟨p, hmscale, hp⟩ := standard_scale hm
  obtain ⟨q, hnscale, hq⟩ := standard_scale hn
  have hthere := convert_ok standard_scaled hm hn hdimension x
  have hback := convert_ok standard_scaled hn hm hdimension.symm (x * m.scale / n.scale)
  suffices hvalues : ∃ v w, Denotes x v ∧
      Denotes (x * m.scale / n.scale * n.scale / m.scale) w ∧ |w - v| ≤ 1 / 10 ^ 9 * |v| by
    obtain ⟨v, w, hvalues⟩ := hvalues
    exact ⟨_, _, v, w, hthere, rfl, hback, rfl, hvalues⟩
  rcases hx with hzero | ⟨hlower, hupper⟩
  · obtain ⟨s, hs⟩ := (Number.beq_zero_iff x).mp hzero
    have hzeros := Number.unpack_div_of_zero (Number.unpack_mul_of_zero
      (Number.unpack_div_of_zero (Number.unpack_mul_of_zero hs hmscale) hnscale) hnscale) hmscale
    refine ⟨0, 0, Number.denotes_zero hs, Number.denotes_zero hzeros, ?_⟩
    rw [sub_self, abs_zero, mul_zero]
  · obtain ⟨s, a, hmagnitude, hbetween⟩ := Number.between_of_abs hlower hupper
    obtain ⟨c, hc, hclose⟩ :=
      conversion_conversion_close hmagnitude hbetween hmscale hp hnscale hq
    refine ⟨signed s a, signed s c, hmagnitude.denotes, hc.denotes, ?_⟩
    rw [Number.abs_signed s hbetween.pos.le, Number.abs_signed_sub]
    exact abs_sub_le_of_close hclose hbetween.pos.le

/-- A mile per hour and a third, in kilometres per hour. -/
theorem convert_convert_of_mph :
    ∃ y z v w, standard.convert (4 / 3) "mph" "km/h" = .ok y ∧
      standard.convert y "km/h" "mph" = .ok z ∧
      Denotes (4 / 3) v ∧ Denotes z w ∧ |w - v| ≤ 1 / 10 ^ 9 * |v| := by
  have hmph : standard.measure "mph" = .ok ⟨.speed, 0.44704⟩ := rfl
  have hkmh : standard.measure "km/h" = .ok ⟨.speed, 1000 / 3600⟩ := rfl
  have hrange : 1e-290 ≤ (4 / 3 : Float).abs ∧ (4 / 3 : Float).abs ≤ 1e290 := by decide +kernel
  obtain ⟨y, z, v, w, hy, -, hz, -, hvalues⟩ := convert_convert hmph hkmh rfl (.inr hrange)
  exact ⟨y, z, v, w, hy, hz, hvalues⟩

end UnitTable

end Reckoner
