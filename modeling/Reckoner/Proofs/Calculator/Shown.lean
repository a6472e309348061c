import Reckoner.Calculator.Basic
import Reckoner.Proofs.Calculator.Line
import Reckoner.Proofs.Number.Exact
import Reckoner.Proofs.Number.Layout
import Reckoner.Proofs.Number.Reread
import Reckoner.Proofs.Number.Sign
import Reckoner.Proofs.Number.Significant

/-!
# Reckoner.Proofs.Calculator.Shown -- numbers are shown as they round, and can be typed again

A finite number is shown as a literal that denotes what it rounds to with the wanted number of
significant digits. The value after rounding decides on the form. All zeros that could be left out
are left out, with one exception: in the exponent form the digits down to the ones are kept when
there are as many, which takes at least twenty-two digits.

A number that is shown without an exponent is typed as a numeral, or as one behind a minus. What
is read need not be that number, but it is shown alike.
-/

namespace Reckoner

/-! ## Shown numbers -/

namespace Number

/-- A literal as a number with `p` digits is shown: proper, and in the positional form without a
zero at the end of the fraction. In the exponent form one digit, no zero, stands in front of the
point; the fraction has the digits down to the ones if there are as many, and a zero at its end only
if that is the digit of the ones. -/
structure Literal.Tidy (p : ℕ) (l : Literal) : Prop where
  proper : l.Proper
  positional : l.power = none → l.fraction.getLast? ≠ some '0'
  scientific : ∀ n, l.power = some n → (∃ d, l.whole = [d] ∧ d ≠ '0') ∧
    (0 ≤ n → n < p → n ≤ l.fraction.length) ∧
    (l.fraction.getLast? = some '0' → 21 ≤ n ∧ n < p ∧ l.fraction.length = n)

/-- With at most twenty-one digits all zeros at the end of a fraction are left out. -/
theorem Literal.Tidy.getLast?_ne {p : ℕ} {l : Literal} (h : l.Tidy p) (hp : p ≤ 21) :
    l.fraction.getLast? ≠ some '0' := by
  intro hlast
  cases hpower : l.power with
  | none => exact h.positional hpower hlast
  | some n =>
      have hrange := (h.scientific n hpower).2.2 hlast
      omega

variable {p num den : ℕ}

/-- A positive fraction is shown as a tidy literal that denotes what it rounds to. -/
theorem magnitude_shown (hp : 1 ≤ p) (hnum : 0 < num) (hden : 0 < den) :
    ∃ l : Literal, l.negative = false ∧ replyLayout.magnitude p num den = l.chars ∧ l.Tidy p ∧
      l.magnitude = (significant p num den).value p ∧
      (l.power = none ↔ (10 : ℚ) ^ (-6 : ℤ) ≤ l.magnitude ∧ l.magnitude < 10 ^ (21 : ℤ)) := by
  obtain ⟨hlength, hdigits, hds, hhead, hvalue⟩ := digits_significant hp hnum hden
  obtain ⟨hlower, hupper, -⟩ := significant_spec hp hnum hden
  have hrange := exponent_range (value_bounds hp hlower hupper)
  set s := significant p num den
  set ds := decimalDigits s.coefficient
  unfold Layout.magnitude
  by_cases he : -6 ≤ s.exponent ∧ s.exponent ≤ 20
  · have hmagnitude := (Literal.magnitude_positional ds s.exponent).trans hvalue
    have hpower := Literal.power_positional ds s.exponent
    refine ⟨.positional ds s.exponent, Literal.negative_positional _ _, ?_, ?_, hmagnitude, ?_⟩
    · rw [Literal.chars_positional]
      exact if_pos he
    · refine ⟨Literal.proper_positional hdigits hds hhead,
        fun _ => Literal.getLast?_positional ds s.exponent, fun n hn => ?_⟩
      rw [hpower] at hn
      cases hn
    · rw [hmagnitude, ← hrange]
      exact ⟨fun _ => he, fun _ => hpower⟩
  · have hmagnitude := (Literal.magnitude_scientific (e := s.exponent) hds).trans hvalue
    refine ⟨.scientific ds s.exponent, rfl, ?_, ?_, hmagnitude, ?_⟩
    · rw [Literal.chars_scientific]
      exact if_neg he
    · refine ⟨Literal.proper_scientific hdigits hds hhead, (nomatch ·), fun n hn => ?_⟩
      obtain rfl := Option.some.inj hn
      rw [← hlength]
      refine ⟨?_, Literal.le_length_scientific, fun h => ?_⟩
      · obtain ⟨d, rest, hcons⟩ := List.exists_cons_of_ne_nil hds
        rw [Literal.scientific, hcons]
        refine ⟨d, rfl, ?_⟩
        rintro rfl
        rw [hcons] at hhead
        exact hhead rfl
      · have hlast := Literal.getLast?_scientific h
        omega
    · rw [hmagnitude, ← hrange]
      exact ⟨(nomatch ·), fun h => absurd h he⟩

end Number

open Number

/-- How a finite number is shown: a zero without a sign, any other with the sign in front. -/
theorem shownNumber_eq {x : Float} {v : Exact} (hv : exactValue? x = some v) {p : ℕ} (hp : 1 ≤ p) :
    shownNumber p x = if v.num = 0 then "0" else String.ofList
      ((if v.negative then ['-'] else []) ++ replyLayout.magnitude p v.num v.den) := by
  rw [shownNumber, Layout.write, hv, Nat.max_eq_left hp]

/-- Any number but zero is shown as a tidy literal that denotes what it rounds to. -/
theorem shownNumber_literal {x : Float} {v : Exact} (hv : exactValue? x = some v)
    (hnonzero : v.num ≠ 0) {p : ℕ} (hp : 1 ≤ p) :
    ∃ l : Literal, shownNumber p x = String.ofList l.chars ∧ l.negative = v.negative ∧
      RoundsTo p v.magnitude l.magnitude ∧ l.Tidy p ∧
      (l.power = none ↔ (10 : ℚ) ^ (-6 : ℤ) ≤ l.magnitude ∧ l.magnitude < 10 ^ (21 : ℤ)) := by
  have hden := den_pos_of_exactValue? hv
  have hnum := Nat.pos_of_ne_zero hnonzero
  obtain ⟨l, hsign, hchars, htidy, hmagnitude, hform⟩ := magnitude_shown hp hnum hden
  have hrounds := (significant_spec hp hnum hden).2.2
  rw [← hmagnitude] at hrounds
  refine ⟨{ l with negative := v.negative }, ?_, rfl, hrounds, ?_, hform⟩
  · rw [shownNumber_eq hv hp, if_neg hnonzero, hchars, Literal.chars, Literal.chars, hsign]
    rfl
  · exact ⟨⟨htidy.proper.whole_ne_nil, htidy.proper.digits, htidy.proper.head⟩, htidy.positional,
      htidy.scientific⟩

/-- **A finite number is shown as it rounds.** Zero is shown as a zero without a sign. Any other
finite number is shown as a literal with its sign that denotes exactly what the number rounds to
with `p` significant digits, a half going to the even digit; the literal is tidy, and it is in the
positional form if what it denotes is at least a millionth and below ten to the twenty-first. -/
theorem shownNumber_rounds {x : Float} (hx : x.isFinite = true) {p : ℕ} (hp : 1 ≤ p) :
    ∃ v, exactValue? x = some v ∧ (v.num = 0 → shownNumber p x = "0") ∧
      (v.num ≠ 0 → ∃ l : Literal, shownNumber p x = String.ofList l.chars ∧
        l.negative = v.negative ∧ RoundsTo p v.magnitude l.magnitude ∧ l.Tidy p ∧
        (l.power = none ↔ (10 : ℚ) ^ (-6 : ℤ) ≤ l.magnitude ∧ l.magnitude < 10 ^ (21 : ℤ))) := by
  obtain ⟨v, hv⟩ := exactValue?_of_isFinite hx
  refine ⟨v, hv, ?_, fun hnonzero => shownNumber_literal hv hnonzero hp⟩
  intro hzero
  rw [shownNumber_eq hv hp, if_pos hzero]

/-- Ten to the twenty-second is exact with twenty-three digits, and all of them are shown. -/
theorem shownNumber_rounds_of_zeros :
    (1e22 : Float).isFinite = true ∧ 1 ≤ 23 ∧
      shownNumber 23 1e22 = "1.0000000000000000000000e+22" ∧
      ∃ v, exactValue? 1e22 = some v ∧ (v.num = 0 → shownNumber 23 1e22 = "0") ∧
        (v.num ≠ 0 → ∃ l : Literal, shownNumber 23 1e22 = String.ofList l.chars ∧
          l.negative = v.negative ∧ RoundsTo 23 v.magnitude l.magnitude ∧ l.Tidy 23 ∧
          (l.power = none ↔ (10 : ℚ) ^ (-6 : ℤ) ≤ l.magnitude ∧ l.magnitude < 10 ^ (21 : ℤ))) := by
  have hfinite : (1e22 : Float).isFinite = true := by decide +kernel
  exact ⟨hfinite, by decide, by decide +kernel, shownNumber_rounds hfinite (by decide)⟩

/-- With at most twenty-one digits no zero is left at the end of a fraction. -/
theorem getLast?_shownNumber_ne {x : Float} (hx : x.isFinite = true) {p : ℕ} (hp : 1 ≤ p)
    (hp' : p ≤ 21) :
    ∃ l : Literal, shownNumber p x = String.ofList l.chars ∧ l.Proper ∧
      l.fraction.getLast? ≠ some '0' := by
  obtain ⟨v, hv⟩ := exactValue?_of_isFinite hx
  by_cases hzero : v.num = 0
  · have hshown : shownNumber p x = "0" := by rw [shownNumber_eq hv hp, if_pos hzero]
    refine ⟨⟨false, ['0'], [], none⟩, hshown, ⟨List.cons_ne_nil _ _, ?_, fun _ => rfl⟩, ?_⟩
    · exact List.forall_mem_singleton.mpr rfl
    · exact Option.some_ne_none _ |>.symm
  · obtain ⟨l, hchars, -, -, htidy, -⟩ := shownNumber_literal hv hzero hp
    exact ⟨l, hchars, htidy.proper, htidy.getLast?_ne hp'⟩

/-- **No calculator shows a zero at the end of a fraction**, since none shows more than seventeen
digits. -/
theorem Config.getLast?_fraction_ne (c : Config) {x : Float} (hx : x.isFinite = true) :
    ∃ l : Literal, shownNumber c.precision x = String.ofList l.chars ∧ l.Proper ∧
      l.fraction.getLast? ≠ some '0' := by
  have hdigits : c.precision ≤ 21 := c.precision_le.trans (by decide)
  exact getLast?_shownNumber_ne hx c.precision_pos hdigits

namespace Number

open Float.Model.UnpackedFloat (Sign)

/-! ## Shown numbers as numerals -/

/-- A literal without a sign and without a power of ten, as it is typed in a line. -/
def Literal.numeral (l : Literal) (hproper : l.Proper) : Numeral where
  whole := l.whole
  fraction := if l.fraction.isEmpty then none else some l.fraction
  whole_ne_nil := hproper.whole_ne_nil
  whole_digits c hc := hproper.digits c (List.mem_append_left _ hc)
  fraction_digits ds hds c hc := by
    split at hds
    · cases hds
    · obtain rfl := Option.some.inj hds
      exact hproper.digits c (List.mem_append_right _ hc)

theorem Literal.numeral_text {l : Literal} (hproper : l.Proper) (hsign : l.negative = false)
    (hpower : l.power = none) : (l.numeral hproper).text = String.ofList l.chars := by
  obtain ⟨negative, whole, fraction, power⟩ := l
  subst hsign hpower
  cases fraction <;> simp [Numeral.text, numeral, chars, pointed]

theorem Literal.numeral_value {l : Literal} (hproper : l.Proper) :
    (l.numeral hproper).value = l.read := by
  obtain ⟨negative, whole, fraction, power⟩ := l
  cases fraction <;> rfl

variable {p num den : ℕ}

/-- What is written without an exponent is written positionally. -/
theorem exponent_bounds_of_not_mem (h : 'e' ∉ replyLayout.magnitude p num den) :
    -6 ≤ (significant p num den).exponent ∧ (significant p num den).exponent ≤ 20 := by
  by_contra hrange
  apply h
  have hform : replyLayout.magnitude p num den = scientific 1
      (decimalDigits (significant p num den).coefficient) (significant p num den).exponent :=
    if_neg hrange
  rw [hform]
  simp [scientific]

/-- Numbers with the same significant digits are written alike. -/
theorem magnitude_congr {num' den' : ℕ} (h : significant p num' den' = significant p num den) :
    replyLayout.magnitude p num' den' = replyLayout.magnitude p num den := by
  rw [Layout.magnitude, Layout.magnitude, h]

/-- What is written without an exponent is a numeral, which is read as a number with the same
digits: that number is finite, and so is its negative. -/
theorem exists_numeral {x : Float} {v : Exact} (hp : 1 ≤ p) (hp' : p ≤ 17)
    (hx : exactValue? x = some v) (hnum : 0 < v.num)
    (h : 'e' ∉ replyLayout.magnitude p v.num v.den) :
    ∃ (n : Numeral) (m : ℕ) (e : ℤ), n.text = String.ofList (replyLayout.magnitude p v.num v.den) ∧
      0 < m ∧ exactValue? n.value = some (.ofFinite .positive m e) ∧
      exactValue? (-n.value) = some (.ofFinite .negative m e) ∧
      ∀ s, replyLayout.magnitude p (Exact.ofFinite s m e).num (Exact.ofFinite s m e).den =
        replyLayout.magnitude p v.num v.den := by
  obtain ⟨hlow, hhigh⟩ := exponent_bounds_of_not_mem h
  have hden := den_pos_of_exactValue? hx
  obtain ⟨-, hdigits, hds, hhead, -⟩ := digits_significant hp hnum hden
  obtain ⟨m, e, hm, hunpack, -, hsignificant⟩ := significant_read hp hp' hx hnum hlow hhigh
  have hform : replyLayout.magnitude p v.num v.den =
      (Literal.positional (decimalDigits (significant p v.num v.den).coefficient)
        (significant p v.num v.den).exponent).chars := by
    rw [Literal.chars_positional]
    exact if_pos ⟨hlow, hhigh⟩
  have hproper := Literal.proper_positional (e := (significant p v.num v.den).exponent)
    hdigits hds hhead
  have hvalue := Literal.numeral_value hproper
  refine ⟨Literal.numeral _ hproper, m, e, ?_, hm, ?_, ?_, ?_⟩
  · rw [hform]
    exact Literal.numeral_text hproper (Literal.negative_positional _ _)
      (Literal.power_positional _ _)
  · rw [hvalue]
    exact exactValue?_of_unpack hunpack
  · rw [hvalue]
    refine exactValue?_of_unpack (h := hm) ?_
    rw [unpack_neg, hunpack]
    rfl
  · exact fun s => magnitude_congr hsignificant

/-- The numeral of the digit zero. -/
def zeroNumeral : Numeral where
  whole := ['0']
  fraction := none
  whole_ne_nil := List.cons_ne_nil _ _
  whole_digits := List.forall_mem_singleton.mpr rfl
  fraction_digits := by rintro ds ⟨⟩

theorem exactValue?_zeroNumeral : ∃ v, exactValue? zeroNumeral.value = some v ∧ v.num = 0 := by
  have hfinite : zeroNumeral.value.isFinite = true := by decide +kernel
  have hzero : (exactValue? zeroNumeral.value).all (fun v => v.num == 0) = true := by decide +kernel
  obtain ⟨v, hv⟩ := exactValue?_of_isFinite hfinite
  rw [hv, Option.all_some, beq_iff_eq] at hzero
  exact ⟨v, hv, hzero⟩

end Number

/-- What is shown without an exponent is a numeral, or one behind a minus, and what is read is shown
alike. -/
theorem shownNumber_numeral {x : Float} (hx : x.isFinite = true) {p : ℕ} (hp : 1 ≤ p)
    (hp' : p ≤ 17) (h : 'e' ∉ (shownNumber p x).toList) :
    ∃ n : Numeral,
      (shownNumber p x = n.text ∧ n.value.isFinite = true ∧
        shownNumber p n.value = shownNumber p x) ∨
      (shownNumber p x = "-" ++ n.text ∧ (-n.value).isFinite = true ∧
        shownNumber p (-n.value) = shownNumber p x) := by
  obtain ⟨v, hv⟩ := exactValue?_of_isFinite hx
  have htext := shownNumber_eq hv hp
  by_cases hzero : v.num = 0
  · obtain ⟨w, hw, hnum⟩ := exactValue?_zeroNumeral
    rw [if_pos hzero] at htext
    refine ⟨zeroNumeral, .inl ⟨htext, isFinite_of_exactValue? hw, ?_⟩⟩
    rw [shownNumber_eq hw hp, if_pos hnum, htext]
  · rw [if_neg hzero] at htext
    have hmagnitude : 'e' ∉ replyLayout.magnitude p v.num v.den := by
      intro he
      apply h
      rw [htext, String.toList_ofList]
      exact List.mem_append_right _ he
    obtain ⟨n, m, e, hn, hm, hpositive, hnegative, halike⟩ :=
      exists_numeral hp hp' hv (Nat.pos_of_ne_zero hzero) hmagnitude
    refine ⟨n, ?_⟩
    cases hsign : v.negative with
    | false =>
        rw [hsign, if_neg Bool.false_ne_true, List.nil_append] at htext
        left
        refine ⟨htext.trans hn.symm, isFinite_of_exactValue? hpositive, ?_⟩
        rw [shownNumber_eq hpositive hp, if_neg (Exact.num_ofFinite_pos hm).ne', halike, htext]
        rfl
    | true =>
        rw [hsign, if_pos rfl] at htext
        right
        refine ⟨?_, isFinite_of_exactValue? hnegative, ?_⟩
        · rw [htext, hn, String.ofList_append]
        · rw [shownNumber_eq hnegative hp, if_neg (Exact.num_ofFinite_pos hm).ne', halike, htext]
          rfl

namespace Calculator

variable {c : Calculator} {x : Float}

/-- **What is shown without an exponent can be typed.** The line is answered with a number, and the
reply is the line. The number that becomes the result before need not be the one that was shown,
but it is shown alike. -/
theorem evaluate_shownNumber (hunits : c.memory.units = .standard) (hdepth : 2 ≤ c.config.maxDepth)
    (hx : x.isFinite = true) (hshown : 'e' ∉ (shownNumber c.config.precision x).toList) :
    ∃ y : Float, y.isFinite = true ∧
      shownNumber c.config.precision y = shownNumber c.config.precision x ∧
      c.evaluate (shownNumber c.config.precision x) =
        .ok (⟨shownNumber c.config.precision x, false, .number, none⟩,
          { c with memory := { c.memory with lastResult := y } }) := by
  obtain ⟨n, ⟨htext, hfinite, halike⟩ | ⟨htext, hfinite, halike⟩⟩ :=
    shownNumber_numeral hx c.config.precision_pos c.config.precision_le hshown
  · have hevaluate := evaluate_numeral hunits n hfinite
    rw [halike, ← htext] at hevaluate
    exact ⟨n.value, hfinite, halike, hevaluate⟩
  · have hevaluate := evaluate_minus hunits hdepth n hfinite
    rw [halike, ← htext] at hevaluate
    exact ⟨-n.value, hfinite, halike, hevaluate⟩

/-- The negative of a third is shown with twelve digits, which are read as another float. -/
theorem evaluate_shownNumber_of_third :
    let c := new {}
    let x : Float := -(1 / 3)
    c.memory.units = .standard ∧ 2 ≤ c.config.maxDepth ∧ x.isFinite = true ∧
      'e' ∉ (shownNumber c.config.precision x).toList ∧
      ∃ y : Float, y.isFinite = true ∧ shownNumber c.config.precision y = "-0.333333333333" ∧
        c.evaluate "-0.333333333333" = .ok (⟨"-0.333333333333", false, .number, none⟩,
          { c with memory := { c.memory with lastResult := y } }) := by
  intro c x
  have hfinite : x.isFinite = true := by decide +kernel
  have htext : shownNumber c.config.precision x = "-0.333333333333" := by decide +kernel
  have hshown : 'e' ∉ (shownNumber c.config.precision x).toList := by
    rw [htext]
    decide
  have hdepth : 2 ≤ c.config.maxDepth := by decide
  refine ⟨rfl, hdepth, hfinite, hshown, ?_⟩
  rw [← htext]
  exact evaluate_shownNumber rfl hdepth hfinite hshown

end Calculator

end Reckoner
