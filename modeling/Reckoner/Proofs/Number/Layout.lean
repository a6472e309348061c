import Reckoner.Proofs.Number.Decimal

/-!
# Reckoner.Proofs.Number.Layout -- both forms denote the digits

The digits of a number and the power of ten that the first of them stands for are laid out in one
of two forms. Either form is a literal that denotes them, with no zero in front that could be left
out. The positional form has no zero at its end either; the exponent form has one only among the
digits that reach down to the ones.
-/

namespace Reckoner.Number

namespace Literal

/-- The literal of the positional form. -/
def positional (ds : List Char) (e : ℤ) : Literal :=
  if e < 0 then
    ⟨false, ['0'], dropEndZeros (List.replicate (-e - 1).toNat '0' ++ ds), none⟩
  else
    ⟨false, ds.take (e.toNat + 1) ++ List.replicate (e.toNat + 1 - ds.length) '0',
      dropEndZeros (ds.drop (e.toNat + 1)), none⟩

/-- How many digits behind the point the exponent form keeps in any case: those that reach down to
the ones, if there are as many. -/
def kept (ds : List Char) (e : ℤ) : ℕ := if e < ds.length then e.toNat else 0

/-- The literal of the exponent form. -/
def scientific (ds : List Char) (e : ℤ) : Literal :=
  ⟨false, ds.take 1,
    (ds.drop 1).take (kept ds e) ++ dropEndZeros ((ds.drop 1).drop (kept ds e)), some e⟩

theorem chars_positional (ds : List Char) (e : ℤ) :
    (positional ds e).chars = Number.positional ds e := by
  unfold positional Number.positional
  split <;> simp [chars]

/-- An exponent has at least one digit, so a width of one pads none. -/
theorem chars_scientific (ds : List Char) (e : ℤ) :
    (scientific ds e).chars = Number.scientific 1 ds e := by
  have hpad : 1 - (decimalDigits e.natAbs).length = 0 := by
    have := length_decimalDigits_pos e.natAbs
    omega
  simp [chars, scientific, Number.scientific, kept, hpad]

theorem power_positional (ds : List Char) (e : ℤ) : (positional ds e).power = none := by
  unfold positional
  split <;> rfl

theorem negative_positional (ds : List Char) (e : ℤ) : (positional ds e).negative = false := by
  unfold positional
  split <;> rfl

/-- Zeros at the end of the digits leave the positional form as it is. -/
theorem positional_zeros (ds : List Char) (k : ℕ) (e : ℤ) :
    positional (ds ++ List.replicate k '0') e = positional ds e := by
  unfold positional
  split
  · rw [← List.append_assoc, dropEndZeros_zeros]
  · rcases Nat.le_total (e.toNat + 1) ds.length with hle | hle
    · rw [List.take_append_of_le_length hle, List.drop_append_of_le_length hle, dropEndZeros_zeros,
        List.length_append, Nat.sub_eq_zero_of_le (Nat.le_add_right_of_le hle),
        Nat.sub_eq_zero_of_le hle]
    · have hzeros (n : ℕ) : dropEndZeros (List.replicate n '0') = [] := dropEndZeros_zeros [] n
      rw [List.drop_append, List.drop_of_length_le hle, List.nil_append, List.drop_replicate,
        hzeros, List.take_append, List.take_of_length_le hle, List.take_replicate,
        List.append_assoc, List.replicate_append_replicate, List.length_append,
        List.length_replicate]
      congr 3
      omega

theorem magnitude_eq (l : Literal) :
    l.magnitude = pointValue l.whole l.fraction * 10 ^ l.power.getD 0 := by
  rw [magnitude, pointValue, mul_assoc, ← zpow_add₀ (by norm_num)]
  congr 2
  ring

variable {ds : List Char} {e : ℤ}

/-! ## What the forms denote -/

theorem magnitude_positional (ds : List Char) (e : ℤ) :
    (positional ds e).magnitude = digitsValue ds * 10 ^ (e + 1 - ds.length) := by
  rw [magnitude_eq]
  unfold positional
  split
  · next he =>
    have hdrop := pointValue_dropEndZeros ['0'] [] (List.replicate (-e - 1).toNat '0' ++ ds)
    rw [List.nil_append, List.nil_append] at hdrop
    have hzeros : digitsValue (['0'] ++ (List.replicate (-e - 1).toNat '0' ++ ds)) =
        digitsValue ds := by
      have hone : ['0'] = List.replicate 1 '0' := rfl
      rw [hone, ← List.append_assoc, List.replicate_append_replicate, digitsValue_append,
        digitsValue_replicate, Nat.mul_zero, Nat.zero_add]
    simp only [Option.getD_none, zpow_zero, mul_one]
    rw [hdrop, pointValue, hzeros, List.length_append, List.length_replicate]
    congr 2
    omega
  · next he =>
    have hdrop := pointValue_dropEndZeros
      (ds.take (e.toNat + 1) ++ List.replicate (e.toNat + 1 - ds.length) '0') []
      (ds.drop (e.toNat + 1))
    rw [List.nil_append, List.nil_append] at hdrop
    simp only [Option.getD_none, zpow_zero, mul_one]
    rw [hdrop, pointValue]
    -- either zeros fill up to the point, or digits are left behind it
    rcases Nat.le_total ds.length (e.toNat + 1) with hle | hle
    · rw [List.take_of_length_le hle, List.drop_of_length_le hle, List.append_nil,
        digitsValue_append, digitsValue_replicate, List.length_replicate, List.length_nil]
      have hpow : ((10 ^ (e.toNat + 1 - ds.length) : ℕ) : ℚ) = 10 ^ (e + 1 - ds.length) := by
        rw [Nat.cast_pow, ← zpow_natCast]
        congr 1
        omega
      rw [Nat.add_zero, Nat.cast_mul, hpow]
      simp [mul_comm]
    · rw [Nat.sub_eq_zero_of_le hle, List.replicate_zero, List.append_nil, List.take_append_drop,
        List.length_drop]
      congr 2
      omega

theorem magnitude_scientific (hds : ds ≠ []) :
    (scientific ds e).magnitude = digitsValue ds * 10 ^ (e + 1 - ds.length) := by
  have hlength : 0 < ds.length := List.length_pos_iff.mpr hds
  rw [magnitude_eq]
  simp only [scientific, pointValue_dropEndZeros, List.take_append_drop, Option.getD_some]
  rw [pointValue, List.take_append_drop, List.length_drop, mul_assoc, ← zpow_add₀ (by norm_num)]
  congr 2
  omega

/-! ## Their shape -/

theorem proper_positional (hdigits : ∀ c ∈ ds, isAsciiDigit c = true) (hds : ds ≠ [])
    (hhead : ds.head? ≠ some '0') : (positional ds e).Proper := by
  have hzeros (k : ℕ) : ∀ c ∈ List.replicate k '0', isAsciiDigit c = true := by
    intro c hc
    rw [List.eq_of_mem_replicate hc]
    rfl
  obtain ⟨c, cs, rfl⟩ := List.exists_cons_of_ne_nil hds
  unfold positional
  split
  · refine ⟨by simp, fun c hc => ?_, fun _ => rfl⟩
    rcases List.mem_append.mp hc with hc | hc
    · exact hzeros 1 c hc
    · rcases List.mem_append.mp (mem_of_mem_dropEndZeros hc) with hc | hc
      · exact hzeros _ c hc
      · exact hdigits c hc
  · refine ⟨by simp, fun c hc => ?_, fun h => ?_⟩
    · rcases List.mem_append.mp hc with hc | hc
      · rcases List.mem_append.mp hc with hc | hc
        · exact hdigits c (List.mem_of_mem_take hc)
        · exact hzeros _ c hc
      · exact hdigits c (List.mem_of_mem_drop (mem_of_mem_dropEndZeros hc))
    · exact absurd (by simpa using h) hhead

theorem getLast?_positional (ds : List Char) (e : ℤ) :
    (positional ds e).fraction.getLast? ≠ some '0' := by
  unfold positional
  split <;> exact getLast?_dropEndZeros _

theorem proper_scientific (hdigits : ∀ c ∈ ds, isAsciiDigit c = true) (hds : ds ≠ [])
    (hhead : ds.head? ≠ some '0') : (scientific ds e).Proper := by
  obtain ⟨c, cs, rfl⟩ := List.exists_cons_of_ne_nil hds
  refine ⟨by simp [scientific], fun d hd => ?_, fun h => absurd h hhead⟩
  rcases List.mem_append.mp hd with hd | hd
  · exact hdigits d (List.mem_of_mem_take hd)
  · rcases List.mem_append.mp hd with hd | hd
    · exact hdigits d (List.mem_of_mem_drop (List.mem_of_mem_take hd))
    · exact hdigits d (List.mem_of_mem_drop (List.mem_of_mem_drop (mem_of_mem_dropEndZeros hd)))

/-- The exponent form keeps the digits down to the ones, if there are as many. -/
theorem le_length_scientific (he : 0 ≤ e) (hlt : e < ds.length) :
    e ≤ (scientific ds e).fraction.length := by
  simp only [scientific, kept, if_pos hlt, List.length_append, List.length_take, List.length_drop]
  omega

/-- A zero at the end of the exponent form is the digit of the ones. -/
theorem getLast?_scientific (h : (scientific ds e).fraction.getLast? = some '0') :
    0 < e ∧ e < ds.length ∧ (scientific ds e).fraction.length = e := by
  simp only [scientific] at h ⊢
  have hdropped : dropEndZeros ((ds.drop 1).drop (kept ds e)) = [] := by
    by_contra hne
    rw [List.getLast?_append_of_ne_nil _ hne] at h
    exact getLast?_dropEndZeros _ h
  rw [hdropped, List.append_nil] at h ⊢
  have hpos : 0 < ((ds.drop 1).take (kept ds e)).length := by
    rw [List.length_pos_iff]
    rintro hnil
    rw [hnil] at h
    cases h
  rw [List.length_take, List.length_drop] at hpos ⊢
  by_cases hlt : e < ds.length
  · rw [kept, if_pos hlt] at hpos ⊢
    omega
  · rw [kept, if_neg hlt] at hpos
    omega

end Literal

end Reckoner.Number
