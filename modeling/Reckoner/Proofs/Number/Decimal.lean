import Mathlib.Algebra.Field.Rat
import Mathlib.Algebra.Group.Even
import Mathlib.Algebra.Order.Field.Power
import Mathlib.Algebra.Order.Group.Unbundled.Abs
import Mathlib.Algebra.Order.Ring.Rat
import Mathlib.Data.List.TakeWhile
import Mathlib.Data.Rat.Cast.Order
import Mathlib.Tactic.FieldSimp
import Mathlib.Tactic.Linarith
import Mathlib.Tactic.Positivity
import Mathlib.Tactic.Ring
import Reckoner.Number.Decimal

/-!
# Reckoner.Proofs.Number.Decimal -- written numbers and what they denote

A literal is a number as it is written: a sign, digits in front of a point and behind it, and in
the exponent form a power of ten. It denotes a rational number, without rounding.

The digits of a number denote it, and the first of them is no zero. Digits behind a point may have
zeros dropped at their end: what is denoted stays, and what is left does not end in a zero.
-/

namespace Reckoner.Number

/-! ## Literals -/

/-- A number as it is written. Without digits behind the point there is no point either. -/
structure Literal where
  negative : Bool
  whole : List Char
  fraction : List Char
  power : Option Int

namespace Literal

/-- The characters of a literal. The sign of a power is always written. -/
def chars (l : Literal) : List Char :=
  (if l.negative then ['-'] else []) ++ (l.whole ++ pointed l.fraction ++
    match l.power with
    | none => []
    | some n => 'e' :: (if n < 0 then '-' else '+') :: decimalDigits n.natAbs)

/-- The number that a literal denotes, its sign apart. -/
def magnitude (l : Literal) : ℚ :=
  digitsValue (l.whole ++ l.fraction) * 10 ^ (l.power.getD 0 - l.fraction.length)

/-- A literal of digits, with at least one in front of the point, and with a zero at the start only
if that is the whole number. -/
structure Proper (l : Literal) : Prop where
  whole_ne_nil : l.whole ≠ []
  digits : ∀ c ∈ l.whole ++ l.fraction, isAsciiDigit c = true
  head : l.whole.head? = some '0' → l.whole = ['0']

end Literal

/-- The number that an exact value denotes, its sign apart. -/
def Exact.magnitude (v : Exact) : ℚ := v.num / v.den

/-- The integer `q` is nearest to `v`, and even if another one is as near. -/
def IsNearestEven (v : ℚ) (q : ℕ) : Prop := |v - q| ≤ 1 / 2 ∧ (|v - q| = 1 / 2 → Even q)

/-- The number `r` is the positive number `v` rounded to `p` significant digits, a half going to
the even digit: if the first digit of `v` stands for `10 ^ d`, the last of them stands for
`10 ^ (d + 1 - p)`. -/
def RoundsTo (p : ℕ) (v r : ℚ) : Prop :=
  ∃ (d : ℤ) (q : ℕ), 10 ^ d ≤ v ∧ v < 10 ^ (d + 1) ∧ IsNearestEven (v * 10 ^ (p - 1 - d)) q ∧
    r = q * 10 ^ (d + 1 - p)

/-! ## Digits of a number -/

theorem digitsValue_eq (ds : List Char) : digitsValue ds = Nat.ofDigitChars 10 ds 0 := rfl

theorem digitsValue_append (ds es : List Char) :
    digitsValue (ds ++ es) = 10 ^ es.length * digitsValue ds + digitsValue es := by
  simp only [digitsValue_eq, Nat.ofDigitChars_append]
  rw [Nat.ofDigitChars_eq_ofDigitChars_zero]

theorem digitsValue_replicate (k : Nat) : digitsValue (List.replicate k '0') = 0 := by
  simp [digitsValue_eq]

theorem digitsValue_decimalDigits (n : Nat) : digitsValue (decimalDigits n) = n :=
  Nat.ofDigitChars_ten_toDigits

theorem isAsciiDigit_iff {c : Char} :
    isAsciiDigit c = true ↔ 48 ≤ c.toNat ∧ c.toNat ≤ 57 := by
  simp only [isAsciiDigit, Bool.and_eq_true, decide_eq_true_eq, Char.le_def,
    UInt32.le_iff_toNat_le]
  rfl

theorem isAsciiDigit_of_mem_decimalDigits {n : Nat} {c : Char} (h : c ∈ decimalDigits n) :
    isAsciiDigit c = true := by
  have hdigit := Nat.isDigit_of_mem_toDigits (by omega) (by omega) h
  simp only [Char.isDigit, Bool.and_eq_true, decide_eq_true_eq, UInt32.le_iff_toNat_le] at hdigit
  exact isAsciiDigit_iff.mpr hdigit

/-- Digits denote less than a one with as many zeros. -/
theorem digitsValue_lt {ds : List Char} (h : ∀ c ∈ ds, isAsciiDigit c = true) :
    digitsValue ds < 10 ^ ds.length := by
  induction ds with
  | nil => simp [digitsValue]
  | cons c ds ih =>
      obtain ⟨hc, hds⟩ := List.forall_mem_cons.mp h
      have hless := ih hds
      have hdigit := (isAsciiDigit_iff.mp hc).2
      have hone : digitsValue [c] = c.toNat - 48 := by simp [digitsValue]
      rw [← List.singleton_append, digitsValue_append, hone, List.length_append,
        List.length_singleton]
      calc 10 ^ ds.length * (c.toNat - 48) + digitsValue ds
          < 10 ^ ds.length * (c.toNat - 48) + 10 ^ ds.length := by omega
        _ = 10 ^ ds.length * (c.toNat - 48 + 1) := by ring
        _ ≤ 10 ^ ds.length * 10 := Nat.mul_le_mul_left _ (by omega)
        _ = 10 ^ (1 + ds.length) := by ring

theorem length_decimalDigits_pos (n : Nat) : 0 < (decimalDigits n).length :=
  Nat.length_toDigits_pos

/-- The number of digits of a positive number says which powers of ten it lies between. -/
theorem decimalDigits_bounds {n : Nat} (hn : 0 < n) :
    10 ^ ((decimalDigits n).length - 1) ≤ n ∧ n < 10 ^ (decimalDigits n).length := by
  have hpos := length_decimalDigits_pos n
  have hle_iff {k : Nat} (hk : 0 < k) : (decimalDigits n).length ≤ k ↔ n < 10 ^ k :=
    Nat.length_toDigits_le_iff (by omega) hk
  refine ⟨?_, (hle_iff hpos).mp (Nat.le_refl _)⟩
  by_cases hone : (decimalDigits n).length = 1
  · rw [hone, Nat.sub_self, Nat.pow_zero]
    exact hn
  · by_contra hlt
    have hshort := (hle_iff (k := (decimalDigits n).length - 1) (by omega)).mpr (by omega)
    omega

/-- A number has as many digits as its decade says. -/
theorem length_decimalDigits {n k : Nat} (hle : 10 ^ k ≤ n) (hlt : n < 10 ^ (k + 1)) :
    (decimalDigits n).length = k + 1 := by
  have hpos := length_decimalDigits_pos n
  obtain ⟨hlower, hupper⟩ := decimalDigits_bounds (Nat.lt_of_lt_of_le (Nat.pow_pos (by omega)) hle)
  have hfew := (Nat.pow_lt_pow_iff_right (by omega)).mp (Nat.lt_of_le_of_lt hlower hlt)
  have hmany := (Nat.pow_lt_pow_iff_right (by omega)).mp (Nat.lt_of_le_of_lt hle hupper)
  omega

/-- The first digit of a positive number is no zero. -/
theorem head?_decimalDigits_ne {n : Nat} (hn : 0 < n) : (decimalDigits n).head? ≠ some '0' := by
  intro h
  obtain ⟨ds, hds⟩ := List.head?_eq_some_iff.mp h
  -- behind a zero too few digits are left
  have hvalue : digitsValue ds = n := by
    have hwhole := digitsValue_decimalDigits n
    rw [hds, ← List.singleton_append, digitsValue_append] at hwhole
    simpa [digitsValue] using hwhole
  have hdigits : ∀ c ∈ ds, isAsciiDigit c = true := fun c hc =>
    isAsciiDigit_of_mem_decimalDigits (n := n) (hds ▸ List.mem_cons_of_mem _ hc)
  have hless := digitsValue_lt hdigits
  have hmost := (decimalDigits_bounds hn).1
  rw [hds] at hmost
  simp only [List.length_cons, Nat.add_sub_cancel] at hmost
  omega

/-- A power of ten is a one with zeros behind it. -/
theorem decimalDigits_pow (n : Nat) : decimalDigits (10 ^ n) = '1' :: List.replicate n '0' := by
  induction n with
  | zero => rfl
  | succ n ih =>
      have hsplit : Nat.toDigits 10 (10 ^ n) ++ Nat.toDigits 10 0 =
          Nat.toDigits 10 (10 * 10 ^ n + 0) :=
        Nat.toDigits_append_toDigits (by omega) (Nat.pow_pos (by omega)) (by omega)
      rw [Nat.add_zero, ← Nat.pow_succ'] at hsplit
      rw [decimalDigits, ← hsplit, ← decimalDigits, ih, List.cons_append, List.replicate_succ']
      rfl

/-! ## Digits around a point -/

/-- The number of some digits in front of a point and some behind it. -/
def pointValue (whole fraction : List Char) : ℚ :=
  digitsValue (whole ++ fraction) * 10 ^ (-fraction.length : ℤ)

theorem pointValue_zeros (whole fraction : List Char) (k : Nat) :
    pointValue whole (fraction ++ List.replicate k '0') = pointValue whole fraction := by
  have hpow : (10 : ℚ) ^ (k : ℤ) * 10 ^ (-(fraction.length + k : ℤ)) =
      10 ^ (-fraction.length : ℤ) := by
    rw [← zpow_add₀ (by norm_num)]
    congr 1
    ring
  rw [pointValue, pointValue, ← List.append_assoc, digitsValue_append, digitsValue_replicate,
    List.length_append, List.length_replicate, ← hpow]
  push_cast
  rw [zpow_natCast]
  ring

/-- What is left when the zeros at the end are dropped, and the zeros. -/
theorem dropEndZeros_append (ds : List Char) :
    ∃ k, ds = dropEndZeros ds ++ List.replicate k '0' := by
  refine ⟨(ds.reverse.takeWhile (· == '0')).length, ?_⟩
  have hzeros : ds.reverse.takeWhile (· == '0') =
      List.replicate (ds.reverse.takeWhile (· == '0')).length '0' := by
    refine List.eq_replicate_iff.mpr ⟨rfl, fun c hc => ?_⟩
    simpa using List.mem_takeWhile_imp hc
  have hsplit := congrArg List.reverse (List.takeWhile_append_dropWhile (p := (· == '0'))
    (l := ds.reverse))
  rw [List.reverse_append, List.reverse_reverse, hzeros, List.reverse_replicate] at hsplit
  exact hsplit.symm

theorem getLast?_dropEndZeros (ds : List Char) : (dropEndZeros ds).getLast? ≠ some '0' := by
  rw [dropEndZeros, List.getLast?_reverse]
  intro h
  have hhead := List.head?_dropWhile_not (p := (· == '0')) ds.reverse
  rw [h] at hhead
  simp at hhead

/-- Zeros at the end are dropped. -/
theorem dropEndZeros_zeros (ds : List Char) (k : Nat) :
    dropEndZeros (ds ++ List.replicate k '0') = dropEndZeros ds := by
  induction k with
  | zero => rw [List.replicate_zero, List.append_nil]
  | succ k ih =>
      rw [List.replicate_succ', ← List.append_assoc, dropEndZeros, List.reverse_concat,
        List.dropWhile_cons_of_pos rfl]
      exact ih

theorem mem_of_mem_dropEndZeros {ds : List Char} {c : Char} (h : c ∈ dropEndZeros ds) : c ∈ ds := by
  obtain ⟨k, hk⟩ := dropEndZeros_append ds
  rw [hk]
  exact List.mem_append_left _ h

/-- Dropping zeros at the end of a fraction does not change the number. -/
theorem pointValue_dropEndZeros (whole front ds : List Char) :
    pointValue whole (front ++ dropEndZeros ds) = pointValue whole (front ++ ds) := by
  obtain ⟨k, hk⟩ := dropEndZeros_append ds
  conv_rhs => rw [hk, ← List.append_assoc, pointValue_zeros]

end Reckoner.Number
