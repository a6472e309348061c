import Mathlib
import Reckoner.Builtin
import Reckoner.Number.Basic
import Reckoner.Number.Function
import Reckoner.Proofs.Number.Rounded
import Reckoner.Proofs.Number.Sign

/-!
# Reckoner.Proofs.Builtin.Divisor -- divisors and multiples of arguments

A whole number becomes a float by being rounded once. An integer that a float denotes has few binary
digits in front of zeros, and so has each of its divisors. So the greatest common divisor of such
integers is not changed by rounding.

The functions of integers refuse the first argument that is none. Otherwise they compute with the
integers themselves and round once: a greatest common divisor is exact, and a least common multiple
is the nearest float, or infinity.
-/

namespace Reckoner.Number

open Float.Model.UnpackedFloat (Sign)

/-! ## Whole numbers -/

/-- Whether a float is a whole number rounded once. Zero is not changed, and a number that would be
rounded beyond the range of floats is infinity. -/
def RoundsWhole (y : Float) (n : ℕ) : Prop :=
  (n = 0 → Denotes y 0) ∧
    (0 < n → ∃ r, IsRounded n r ∧ (r < 2 ^ (1024 : ℤ) → Denotes y r) ∧
      (y = infinity ↔ 2 ^ (1024 : ℤ) ≤ r))

theorem unpack_infinity : infinity.toModel.unpack = .infinity .positive := rfl

/-- **The float of a whole number is that number rounded once.** -/
theorem roundsWhole_ofNat (n : ℕ) : RoundsWhole (Float.ofNat n) n := by
  constructor
  · rintro rfl
    exact denotes_zero (s := .positive) rfl
  · intro hn
    obtain ⟨r, hr, hsmall, hlarge⟩ := ofNat_rounds hn
    refine ⟨r, hr, ?_, ?_, ?_⟩
    · intro hlt
      obtain ⟨m, e, h, hunpack, -, rfl⟩ := hsmall hlt
      exact denotes_of_unpack hunpack
    · intro hinfinity
      by_contra hlt
      obtain ⟨m, e, h, hunpack, -⟩ := hsmall (lt_of_not_ge hlt)
      rw [hinfinity, unpack_infinity] at hunpack
      cases hunpack
    · intro hle
      exact eq_of_unpack ((hlarge hle).trans unpack_infinity.symm)

/-- The library does not trap at a finite answer. -/
theorem trapping_of_isFinite (args : List Float) {y : Float} (hy : y.isFinite = true) :
    trapping args y = .ok y := by
  have hstatus : y.isNaN = false ∧ y.isInf = false := by
    show y.toModel.unpack.isNaN = false ∧ y.toModel.unpack.isInf = false
    rw [isFinite_eq_unpack] at hy
    cases hunpack : y.toModel.unpack with
    | zero s => exact ⟨rfl, rfl⟩
    | finite s m e h => exact ⟨rfl, rfl⟩
    | infinity s =>
        rw [hunpack] at hy
        cases hy
    | notANumber =>
        rw [hunpack] at hy
        cases hy
  rw [trapping, hstatus.1, hstatus.2, Bool.false_and, Bool.false_and]
  rfl

/-- What a whole number is as an answer is its float. -/
theorem settled_ofWhole (n : ℕ) : settled (ofWhole n) = Float.ofNat n := by
  have hcases : (Float.ofNat n).isFinite = true ∨ Float.ofNat n = infinity := by
    rcases Nat.eq_zero_or_pos n with rfl | hn
    · exact .inl rfl
    · obtain ⟨-, hpos⟩ := roundsWhole_ofNat n
      obtain ⟨r, -, hsmall, hlarge⟩ := hpos hn
      rcases lt_or_ge r (2 ^ (1024 : ℤ)) with hlt | hle
      · exact .inl (hsmall hlt).isFinite
      · exact .inr (hlarge.mpr hle)
  rcases hcases with hfinite | hinfinity
  · rw [ofWhole, trapping_of_isFinite [] hfinite]
    rfl
  · rw [ofWhole, hinfinity]
    rfl

/-! ## Divisors -/

/-- The digits of an integer that a float denotes. -/
theorem Denotes.exists_mantissa {x : Float} {n : ℤ} (hx : Denotes x n) :
    ∃ m k, m < 2 ^ 53 ∧ n.natAbs = m * 2 ^ k ∧ (n.natAbs : ℚ) < 2 ^ (1024 : ℤ) := by
  rcases hx.cases with ⟨s, -, hzero⟩ | ⟨s, m, e, h, hunpack, hvalue⟩
  · obtain rfl : n = 0 := by exact_mod_cast hzero
    exact ⟨0, 0, by omega, by simp, by simp⟩
  · have hm := mantissa_lt hunpack
    have habs : (n.natAbs : ℚ) = m * 2 ^ e := by
      rw [Nat.cast_natAbs, Int.cast_abs, hvalue, abs_signed s (by positivity)]
    have hlt := lt_of_unpack hunpack
    rw [← habs] at hlt
    obtain ⟨k, rfl | rfl⟩ := e.eq_nat_or_neg
    · refine ⟨m, k, hm, ?_, hlt⟩
      rw [zpow_natCast] at habs
      exact_mod_cast habs
    · -- digits behind the point are zeros, so the integer is shorter than the mantissa
      have hle : (n.natAbs : ℚ) ≤ m := by
        rw [habs, zpow_neg, zpow_natCast]
        apply mul_le_of_le_one_right (by positivity)
        exact inv_le_one_of_one_le₀ (one_le_pow₀ one_le_two)
      have hle : n.natAbs ≤ m := by exact_mod_cast hle
      exact ⟨n.natAbs, 0, by omega, by omega, hlt⟩

/-- A divisor of a number with few digits in front of zeros is such a number. -/
theorem exists_mantissa_of_dvd {d m k : ℕ} (hm : 0 < m) (hd : d ∣ m * 2 ^ k) :
    ∃ m' k', m' ≤ m ∧ d = m' * 2 ^ k' := by
  obtain ⟨a, b, ha, hb, rfl⟩ := Nat.dvd_mul.mp hd
  obtain ⟨k', -, rfl⟩ := (Nat.dvd_prime_pow Nat.prime_two).mp hb
  exact ⟨a, k', Nat.le_of_dvd hm ha, rfl⟩

theorem dvd_gcdOf {k : ℕ} {ns : List ℤ} : k ∣ gcdOf ns ↔ ∀ n ∈ ns, k ∣ n.natAbs := by
  induction ns with
  | nil => simp [gcdOf]
  | cons n ns ih =>
      rw [List.forall_mem_cons, ← ih]
      exact Nat.dvd_gcd_iff

theorem lcmOf_dvd {k : ℕ} {ns : List ℤ} : lcmOf ns ∣ k ↔ ∀ n ∈ ns, n.natAbs ∣ k := by
  induction ns with
  | nil => simp [lcmOf]
  | cons n ns ih =>
      rw [List.forall_mem_cons, ← ih]
      exact Nat.lcm_dvd_iff

/-- A divisor of an integer that a float denotes is a float. -/
theorem denotes_of_dvd {x : Float} {n : ℤ} (hx : Denotes x n) (hn : n ≠ 0) {d : ℕ}
    (hd : d ∣ n.natAbs) : Denotes (Float.ofNat d) d := by
  have hpos : 0 < n.natAbs := Int.natAbs_pos.mpr hn
  obtain ⟨m, k, hm, hdigits, hlt⟩ := hx.exists_mantissa
  have hne : 0 < m := by
    apply Nat.pos_of_ne_zero
    rintro rfl
    rw [hdigits, Nat.zero_mul] at hpos
    exact absurd hpos (Nat.lt_irrefl 0)
  have hle : (d : ℚ) ≤ n.natAbs := by exact_mod_cast Nat.le_of_dvd hpos hd
  have hdpos : 0 < d := Nat.pos_of_dvd_of_pos hd hpos
  rw [hdigits] at hd
  obtain ⟨m', k', hm', hdigits'⟩ := exists_mantissa_of_dvd hne hd
  obtain ⟨-, hrounds⟩ := roundsWhole_ofNat d
  obtain ⟨r, hr, hsmall, -⟩ := hrounds hdpos
  have hself : r = d := by
    apply hr.eq_self (m := m') (e := k') (by omega)
    rw [hdigits']
    push_cast
    rfl
  rw [hself] at hsmall
  exact hsmall (hle.trans_lt hlt)

/-- **The greatest common divisor of integers that floats denote is a float.** -/
theorem denotes_gcdOf {ns : List ℤ} (hns : ∀ n ∈ ns, ∃ x, Denotes x (n : ℤ)) :
    Denotes (Float.ofNat (gcdOf ns)) (gcdOf ns : ℕ) := by
  by_cases hzero : ∀ n ∈ ns, n = 0
  · have hdvd : 0 ∣ gcdOf ns := by
      apply dvd_gcdOf.mpr
      intro n hn
      rw [hzero n hn]
      exact Nat.dvd_refl 0
    rw [Nat.eq_zero_of_zero_dvd hdvd]
    exact (roundsWhole_ofNat 0).1 rfl
  · push Not at hzero
    obtain ⟨n, hn, hne⟩ := hzero
    obtain ⟨x, hx⟩ := hns n hn
    exact denotes_of_dvd hx hne (dvd_gcdOf.mp (Nat.dvd_refl _) n hn)

end Reckoner.Number

namespace Reckoner

open Number (AngleMode Denotes RoundsWhole settled ofWhole gcdOf lcmOf)

namespace Number

/-- Whether some floats denote some integers, each its own. -/
def DenoteAll (xs : List Float) (ns : List ℤ) : Prop :=
  List.Forall₂ (fun x n => Denotes x (n : ℤ)) xs ns

variable {xs ys : List Float} {ns ms : List ℤ}

theorem DenoteAll.mem_iff (h : DenoteAll xs ns) {n : ℤ} :
    n ∈ ns ↔ ∃ x ∈ xs, Denotes x n := by
  induction h with
  | nil => simp
  | @cons x k xs ns hx _ ih =>
      rw [List.mem_cons, ih, List.exists_mem_cons_iff]
      have hfirst : n = k ↔ Denotes x n := by
        constructor
        · rintro rfl
          exact hx
        · intro hn
          exact_mod_cast hn.unique hx
      rw [hfirst]

theorem DenoteAll.exists_of_mem (h : DenoteAll xs ns) : ∀ x ∈ xs, ∃ n : ℤ, Denotes x n := by
  induction h with
  | nil => exact List.forall_mem_nil _
  | cons hx _ ih => exact List.forall_mem_cons.mpr ⟨⟨_, hx⟩, ih⟩

theorem exists_denoteAll (h : ∀ x ∈ xs, ∃ n : ℤ, Denotes x n) : ∃ ns, DenoteAll xs ns := by
  induction xs with
  | nil => exact ⟨[], .nil⟩
  | cons x xs ih =>
      obtain ⟨⟨n, hn⟩, hxs⟩ := List.forall_mem_cons.mp h
      obtain ⟨ns, hns⟩ := ih hxs
      exact ⟨n :: ns, .cons hn hns⟩

/-- If some float denotes no integer, there is a first one. -/
theorem exists_first (h : ∃ x ∈ xs, ∀ n : ℤ, ¬ Denotes x n) :
    ∃ front x back, xs = front ++ x :: back ∧ (∀ w ∈ front, ∃ n : ℤ, Denotes w n) ∧
      ∀ n : ℤ, ¬ Denotes x n := by
  induction xs with
  | nil =>
      obtain ⟨x, hx, -⟩ := h
      cases hx
  | cons x xs ih =>
      by_cases hx : ∃ n : ℤ, Denotes x n
      · rcases (List.exists_mem_cons_iff _ _ _).mp h with hnone | hrest
        · obtain ⟨n, hn⟩ := hx
          exact absurd hn (hnone n)
        · obtain ⟨front, y, back, rfl, hfront, hy⟩ := ih hrest
          exact ⟨x :: front, y, back, rfl, List.forall_mem_cons.mpr ⟨hx, hfront⟩, hy⟩
      · exact ⟨[], x, xs, rfl, List.forall_mem_nil _, not_exists.mp hx⟩

/-- Floats that are the same but for their order and number denote the same integers. -/
theorem DenoteAll.of_mem_iff (h : DenoteAll xs ns) (hys : ∀ x, x ∈ ys ↔ x ∈ xs) :
    ∃ ms, DenoteAll ys ms ∧ ∀ n, n ∈ ms ↔ n ∈ ns := by
  have hintegers : ∀ y ∈ ys, ∃ n : ℤ, Denotes y n := by
    intro y hy
    exact h.exists_of_mem y ((hys y).mp hy)
  obtain ⟨ms, hms⟩ := exists_denoteAll hintegers
  refine ⟨ms, hms, ?_⟩
  intro n
  rw [hms.mem_iff, h.mem_iff]
  simp only [hys]

/-- The greatest common divisor does not depend on order and number. -/
theorem gcdOf_congr (h : ∀ n, n ∈ ms ↔ n ∈ ns) : gcdOf ms = gcdOf ns := by
  apply Nat.dvd_left_iff_eq.mp
  intro k
  rw [dvd_gcdOf, dvd_gcdOf]
  simp only [h]

/-- The least common multiple does not depend on order and number. -/
theorem lcmOf_congr (h : ∀ n, n ∈ ms ↔ n ∈ ns) : lcmOf ms = lcmOf ns := by
  apply Nat.dvd_right_iff_eq.mp
  intro k
  rw [lcmOf_dvd, lcmOf_dvd]
  simp only [h]

end Number

namespace Builtin

open Number (DenoteAll)

variable {xs ys : List Float} {ns : List ℤ} {mode : AngleMode} {f : Builtin}

/-! ## Arguments -/

theorem integerArgs_numbers (f : Builtin) (xs : List Float) :
    f.integerArgs (xs.map .number) = xs.mapM f.integerArg := by
  have hnumbers : (xs.map Value.number).mapM f.numberArg = .ok xs := by
    induction xs with
    | nil => rfl
    | cons x xs ih =>
        rw [List.map_cons, List.mapM_cons, ih]
        rfl
  rw [integerArgs, hnumbers]
  rfl

theorem integerArg_of_denotes (f : Builtin) {x : Float} {n : ℤ} (h : Denotes x n) :
    f.integerArg x = .ok n := by
  rw [integerArg, Number.integer?_eq_some.mpr h]

theorem integerArg_of_forall (f : Builtin) {x : Float} (h : ∀ n : ℤ, ¬ Denotes x n) :
    f.integerArg x = misused (.fraction f.name x) := by
  rw [integerArg]
  cases hinteger : Number.integer? x with
  | none => rfl
  | some n => exact absurd (Number.integer?_eq_some.mp hinteger) (h n)

theorem mapM_integerArg_ok (f : Builtin) (h : DenoteAll xs ns) :
    xs.mapM f.integerArg = .ok ns := by
  induction h with
  | nil => rfl
  | cons hx _ ih =>
      rw [List.mapM_cons, f.integerArg_of_denotes hx, ih]
      rfl

/-- The first argument that denotes no integer is refused. -/
theorem mapM_integerArg_error (f : Builtin) {front back : List Float} {x : Float}
    (hfront : ∀ w ∈ front, ∃ n : ℤ, Denotes w n) (hx : ∀ n : ℤ, ¬ Denotes x n) :
    (front ++ x :: back).mapM f.integerArg = misused (.fraction f.name x) := by
  induction front with
  | nil =>
      rw [List.nil_append, List.mapM_cons, f.integerArg_of_forall hx]
      rfl
  | cons w front ih =>
      obtain ⟨⟨n, hn⟩, hrest⟩ := List.forall_mem_cons.mp hfront
      rw [List.cons_append, List.mapM_cons, f.integerArg_of_denotes hn, ih hrest]
      rfl

/-! ## Functions of integers -/

/-- A function of integers, and what it computes with them. -/
inductive OfIntegers : Builtin → (List ℤ → ℕ) → Prop
  | gcd : OfIntegers .gcd gcdOf
  | lcm : OfIntegers .lcm lcmOf

/-- A function of integers rounds what it computes once. -/
theorem OfIntegers.run_apply {whole : List ℤ → ℕ} (h : OfIntegers f whole)
    (hlength : 2 ≤ xs.length) : (f.apply (xs.map .number)).run mode =
      (xs.mapM f.integerArg).map fun ns => (.number (Float.ofNat (whole ns)), mode) := by
  obtain ⟨a, b, more, rfl⟩ : ∃ a b more, xs = a :: b :: more := by
    match xs, hlength with
    | a :: b :: more, _ => exact ⟨a, b, more, rfl⟩
  rw [← integerArgs_numbers]
  cases h with
  | gcd =>
      rw [List.map_cons, List.map_cons, apply]
      cases integerArgs .gcd (.number a :: .number b :: more.map .number) with
      | error e => rfl
      | ok ns =>
          show Except.ok (Value.number (settled (ofWhole (gcdOf ns))), mode) = _
          rw [Number.settled_ofWhole]
          rfl
  | lcm =>
      rw [List.map_cons, List.map_cons, apply]
      cases integerArgs .lcm (.number a :: .number b :: more.map .number) with
      | error e => rfl
      | ok ns =>
          show Except.ok (Value.number (settled (ofWhole (lcmOf ns))), mode) = _
          rw [Number.settled_ofWhole]
          rfl

/-- **A greatest common divisor is exact, and a least common multiple is rounded once**, whatever
the order and the number of the arguments. The first argument that is no integer is refused. -/
theorem apply_gcd_lcm (hlength : 2 ≤ xs.length) (mode : AngleMode) :
    (∀ ns, DenoteAll xs ns → ∃ d l y z,
      (∀ k, k ∣ d ↔ ∀ n ∈ ns, k ∣ n.natAbs) ∧ (∀ k, l ∣ k ↔ ∀ n ∈ ns, n.natAbs ∣ k) ∧
      Denotes y (d : ℕ) ∧ RoundsWhole z l ∧
      ∀ ys : List Float, 2 ≤ ys.length → (∀ x, x ∈ ys ↔ x ∈ xs) →
        (gcd.apply (ys.map .number)).run mode = .ok (.number y, mode) ∧
          (lcm.apply (ys.map .number)).run mode = .ok (.number z, mode)) ∧
    ((∃ x ∈ xs, ∀ n : ℤ, ¬ Denotes x n) → ∃ front x back, xs = front ++ x :: back ∧
      (∀ w ∈ front, ∃ n : ℤ, Denotes w n) ∧ (∀ n : ℤ, ¬ Denotes x n) ∧
      (gcd.apply (xs.map .number)).run mode = misused (.fraction "gcd" x) ∧
      (lcm.apply (xs.map .number)).run mode = misused (.fraction "lcm" x)) := by
  constructor
  · intro ns hns
    refine ⟨gcdOf ns, lcmOf ns, Float.ofNat (gcdOf ns), Float.ofNat (lcmOf ns),
      fun k => Number.dvd_gcdOf, fun k => Number.lcmOf_dvd, ?_, Number.roundsWhole_ofNat _, ?_⟩
    · apply Number.denotes_gcdOf
      intro n hn
      obtain ⟨x, -, hx⟩ := hns.mem_iff.mp hn
      exact ⟨x, hx⟩
    · intro ys hys hsame
      obtain ⟨ms, hms, hmembers⟩ := hns.of_mem_iff hsame
      rw [OfIntegers.gcd.run_apply hys, OfIntegers.lcm.run_apply hys, mapM_integerArg_ok _ hms,
        mapM_integerArg_ok _ hms, ← Number.gcdOf_congr hmembers, ← Number.lcmOf_congr hmembers]
      exact ⟨rfl, rfl⟩
  · intro hsome
    obtain ⟨front, x, back, rfl, hfront, hx⟩ := Number.exists_first hsome
    refine ⟨front, x, back, rfl, hfront, hx, ?_⟩
    rw [OfIntegers.gcd.run_apply hlength, OfIntegers.lcm.run_apply hlength,
      mapM_integerArg_error _ hfront hx, mapM_integerArg_error _ hfront hx]
    exact ⟨rfl, rfl⟩

/-- Minus eighteen counts once however often it is given, and two and a half is refused. -/
theorem apply_gcd_lcm_of_twelve :
    (∃ y z, Denotes y 6 ∧ RoundsWhole z 36 ∧
      (gcd.apply [.number (-18), .number 12, .number (-18)]).run .degrees =
        .ok (.number y, .degrees) ∧
      (lcm.apply [.number (-18), .number 12, .number (-18)]).run .degrees =
        .ok (.number z, .degrees)) ∧
    (gcd.apply [.number 2.5, .number 2.5]).run .degrees = misused (.fraction "gcd" 2.5) := by
  have hinteger (x : Float) (n : ℤ) (h : Number.integer? x = some n) : Denotes x n :=
    Number.integer?_eq_some.mp h
  have htwelve : DenoteAll [12, -18] [12, -18] := by
    refine .cons (hinteger _ _ ?_) (.cons (hinteger _ _ ?_) .nil) <;> decide +kernel
  have hfraction : ∀ n : ℤ, ¬ Denotes 2.5 n := by
    intro n hn
    have hnone : Number.integer? 2.5 = none := by decide +kernel
    rw [Number.integer?_eq_some.mpr hn] at hnone
    cases hnone
  constructor
  · obtain ⟨hwhole, -⟩ := @apply_gcd_lcm [12, -18] (Nat.le_refl 2) .degrees
    obtain ⟨d, l, y, z, hd, hl, hy, hz, hresults⟩ := hwhole _ htwelve
    obtain rfl : d = 6 := by
      have hfirst := (hd d).mp (Nat.dvd_refl d) 12 (by decide)
      have hsecond := (hd d).mp (Nat.dvd_refl d) (-18) (by decide)
      exact Nat.dvd_antisymm (Nat.dvd_gcd hfirst hsecond) ((hd 6).mpr (by decide))
    obtain rfl : l = 36 := by
      have hfirst := (hl l).mp (Nat.dvd_refl l) 12 (by decide)
      have hsecond := (hl l).mp (Nat.dvd_refl l) (-18) (by decide)
      exact Nat.dvd_antisymm ((hl 36).mpr (by decide)) (Nat.lcm_dvd hfirst hsecond)
    have hsame : ∀ x, x ∈ [(-18 : Float), 12, -18] ↔ x ∈ [(12 : Float), -18] := by
      intro x
      simp only [List.mem_cons]
      tauto
    obtain ⟨hgcd, hlcm⟩ := hresults [-18, 12, -18] (by decide) hsame
    exact ⟨y, z, hy, hz, hgcd, hlcm⟩
  · obtain ⟨-, hrefused⟩ := @apply_gcd_lcm [2.5, 2.5] (Nat.le_refl 2) .degrees
    obtain ⟨front, x, back, hsplit, -, -, hgcd, -⟩ :=
      hrefused ⟨2.5, List.mem_cons_self, hfraction⟩
    obtain rfl : x = 2.5 := by
      have hmem : x ∈ [(2.5 : Float), 2.5] := by
        rw [hsplit]
        exact List.mem_append_right front List.mem_cons_self
      rcases List.mem_pair.mp hmem with h | h <;> exact h
    exact hgcd

end Builtin

end Reckoner
